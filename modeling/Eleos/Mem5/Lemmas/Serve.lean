import Eleos.Mem5.Lemmas.Layout

/-!
# `memsys5Malloc` と `memsys5Free` の結果

不変条件を満たす状態では、割り当ても解放も検査で止まらず、不変条件を保ち、ほかの領域のバイトを変えない。
-/

namespace Eleos.Mem5

open Mem5Global

variable {m : Mem5Global} {free : Nat → List Int} {live : Set Block} {i b : Int} {k n : Nat}

/-- 割り当ての不変条件。 -/
structure Mem5Global.Heap (m : Mem5Global) (free : Nat → List Int) (live : Set Block) : Prop where
  layout : m.Layout free live ∅
  lone : NoBuddies (freeSet free)

/-- 呼び出しの前後で、配置と `live` のバイトは変わらない。 -/
structure Mem5Global.Steady (m m' : Mem5Global) (live : Set Block) : Prop where
  szAtom : m'.szAtom = m.szAtom
  nBlock : m'.nBlock = m.nBlock
  spares : m.Spares m' live

theorem Mem5Global.Steady.refl : m.Steady m live := ⟨rfl, rfl, .refl⟩

theorem Mem5Global.Steady.trans {m₁ m₂ : Mem5Global} (h : m.Steady m₁ live) (h' : m₁.Steady m₂ live) :
    m.Steady m₂ live :=
  ⟨h'.szAtom.trans h.szAtom, h'.nBlock.trans h.nBlock, h.spares.trans h.szAtom h'.spares⟩

theorem Mem5Global.Steady.setCtrl {c : UInt8} (h : m.Spares (m.setCtrl i c) live) : m.Steady (m.setCtrl i c) live :=
  ⟨rfl, rfl, h⟩

/-! ## 割り当て -/

theorem roundLogsize_progress {x s : Int} {fuel a : Nat} (hx : x ≤ 1073741824) (hs : 0 < s)
    (hle : x ≤ s * 2 ^ (a + fuel)) : ∃ r, roundLogsize x (fuel + 1) (s * 2 ^ a) a = .ok r := by
  induction fuel generalizing a with
  | zero =>
      rw [Nat.add_zero] at hle
      exact ⟨a, by rw [roundLogsize, if_neg (Int.not_lt.mpr hle)]⟩
  | succ fuel ih =>
      by_cases hlt : s * 2 ^ a < x
      · have h₁ : 0 < s * 2 ^ a := Int.mul_pos hs (two_pow_pos a)
        have h₂ : int32 (s * 2 ^ a * 2) = s * 2 ^ (a + 1) := by
          rw [int32_of_range (by omega) (by omega), pow_succ, mul_assoc]
        rw [roundLogsize, if_pos hlt, h₂]
        exact ih (by rw [Nat.add_right_comm]; exact hle)
      · exact ⟨a, by rw [roundLogsize, if_neg hlt]⟩

theorem logOf_spec {x s : Int} (hx : x ≤ 1073741824) (hs : 0 < s) : roundLogsize x 33 s 0 = .ok (logOf s x) ∧
    x ≤ s * 2 ^ logOf s x ∧ (0 < logOf s x → s * 2 ^ (logOf s x - 1) < x) := by
  have hle : x ≤ s * 2 ^ (0 + 32) := by omega
  obtain ⟨r, hr⟩ := roundLogsize_progress hx hs hle
  rw [pow_zero, mul_one] at hr
  have hlog : logOf s x = r := by
    unfold logOf
    rw [hr]
  have hok := roundLogsize_ok (s := s) (a := 0) (r := r) hx hs (by rw [pow_zero, mul_one]; exact hr)
  rw [hlog]
  exact ⟨hr, hok.2⟩

/-- 分け終えると、大きさ `2 ^ k` のブロックが手に残り、分けた後ろの半分が空きに加わる。 -/
theorem split_layout (h : m.Layout free live {⟨i, n⟩}) (hk : k ≤ n) : ∃ m' free',
    split i k n m = .ok m' ∧ m'.Layout free' live {⟨i, k⟩} ∧ m.Steady m' live ∧
      ∀ d, d ∈ freeSet free' ↔ d ∈ freeSet free ∨ ∃ j, k ≤ j ∧ j < n ∧ d = ⟨i + 2 ^ j, j⟩ := by
  induction n generalizing m free with
  | zero =>
      cases Nat.le_zero.mp hk
      refine ⟨m, free, rfl, h, .refl, fun d => ⟨Or.inl, ?_⟩⟩
      rintro (hd | ⟨j, _, hj, _⟩)
      · exact hd
      · cases hj
  | succ n ih =>
      by_cases hkn : k < n + 1
      · have h₁ := h.halve
        have hup : (⟨i + 2 ^ n, n⟩ : Block) ∈ ({⟨i, n⟩, ⟨i + 2 ^ n, n⟩} : Set Block) := Or.inr rfl
        have hin := h₁.in_of_mem (Or.inr hup) (Block.has_start _)
        have hlt := h.fits.nBlock_lt
        have hin₁ := hin.1
        have hin₂ := hin.2
        dsimp only at hin hin₁ hin₂
        have hj : int32 (i + 2 ^ n) = i + 2 ^ n := int32_of_range (by omega) (by omega)
        obtain ⟨h₂, hs₂⟩ := h₁.setCtrl (c := ctrlFree ||| UInt8.ofNat n) hup (Block.has_start _)
        dsimp only at h₂ hs₂
        have hmark : (m.setCtrl (i + 2 ^ n) (ctrlFree ||| UInt8.ofNat n)).ctrl (i + 2 ^ n) =
            ctrlFree ||| UInt8.ofNat n := by rw [ctrl_setCtrl h.fits hin hin, if_pos rfl]
        obtain ⟨he, h₃, hs₃⟩ := h₂.push hup hmark
        have hhand : ({⟨i, n⟩, ⟨i + 2 ^ n, n⟩} : Set Block) \ {⟨i + 2 ^ n, n⟩} = {⟨i, n⟩} := by
          ext d
          have hpos := two_pow_pos n
          simp only [Set.mem_sdiff, Set.mem_insert_iff, Set.mem_singleton_iff]
          constructor
          · rintro ⟨hd | hd, hne⟩
            · exact hd
            · exact absurd hd hne
          · rintro rfl
            refine ⟨Or.inl rfl, ?_⟩
            intro heq
            have := congrArg Block.start heq
            dsimp only at this
            omega
        rw [hhand] at h₃
        obtain ⟨m', free', hsp, h₄, hs₄, hfree⟩ := ih h₃ (Nat.le_of_lt_succ hkn)
        refine ⟨m', free', ?_, h₄, ?_, ?_⟩
        · rw [split, if_pos hkn, hj]
          exact bind_ok_iff.mpr ⟨_, onCtrl_in h.fits hin, bind_ok_iff.mpr ⟨_, he, hsp⟩⟩
        · exact ((Steady.setCtrl hs₂).trans ⟨pushed_szAtom, pushed_nBlock, hs₃⟩).trans hs₄
        · intro d
          rw [hfree d, mem_freeSet_cons]
          constructor
          · rintro ((hd | hd) | ⟨j, hj₁, hj₂, hd⟩)
            · exact Or.inl hd
            · exact Or.inr ⟨n, Nat.le_of_lt_succ hkn, Nat.lt_succ_self n, hd⟩
            · exact Or.inr ⟨j, hj₁, Nat.lt_succ_of_lt hj₂, hd⟩
          · rintro (hd | ⟨j, hj₁, hj₂, hd⟩)
            · exact Or.inl (Or.inl hd)
            · rcases Nat.lt_succ_iff_lt_or_eq.mp hj₂ with hj₂ | rfl
              · exact Or.inr ⟨j, hj₁, hj₂, hd⟩
              · exact Or.inl (Or.inr hd)
      · have hkn' : k = n + 1 := Nat.le_antisymm hk (Nat.not_lt.mp hkn)
        subst hkn'
        refine ⟨m, free, by rw [split, if_neg hkn], h, .refl, fun d => ⟨Or.inl, ?_⟩⟩
        rintro (hd | ⟨j, hj₁, hj₂, _⟩)
        · exact hd
        · exact absurd hj₂ (Nat.not_lt.mpr hj₁)

/-- 並びの先頭のブロックを取って渡す。 -/
theorem takeHead_heap (h : m.Heap free live) (hk : k ≤ n) (hi : m.aiFreelist n ∈ free n) : ∃ m' free',
    takeHead m k n = .ok (m', some (m.aiFreelist n * m.szAtom)) ∧ m'.Heap free' (insert ⟨m.aiFreelist n, k⟩ live) ∧
      m.Steady m' live ∧ (⟨m.aiFreelist n, k⟩ : Block) ∉ live := by
  obtain ⟨i, hhead⟩ : ∃ i, m.aiFreelist n = i := ⟨_, rfl⟩
  rw [hhead] at hi ⊢
  have hb : (⟨i, n⟩ : Block) ∈ freeSet free := hi
  have halign : (2 : Int) ^ n ∣ i := h.layout.tiling.aligned _ (Or.inl (Or.inl hb))
  obtain ⟨hun, h₁, hs₁⟩ := h.layout.unlink hi
  rw [insert_empty_eq] at h₁
  obtain ⟨m₂, free₂, hsp, h₂, hs₂, hfree⟩ := split_layout h₁ hk
  have hhand : (⟨i, k⟩ : Block) ∈ ({⟨i, k⟩} : Set Block) := rfl
  have hin := h₂.in_of_mem (Or.inr hhand) (Block.has_start _)
  dsimp only at hin
  obtain ⟨h₃, hs₃⟩ := h₂.setCtrl (c := UInt8.ofNat k) hhand (Block.has_start _)
  have hctrl : (m₂.setCtrl i (UInt8.ofNat k)).ctrl i = UInt8.ofNat k := by
    rw [ctrl_setCtrl h₂.fits hin hin, if_pos rfl]
  have hs₁ : m.Steady (m.unlinked i n) live := ⟨unlinked_szAtom, unlinked_nBlock, hs₁⟩
  have hsteady : m.Steady (m₂.setCtrl i (UInt8.ofNat k)) live := (hs₁.trans hs₂).trans (.setCtrl hs₃)
  have hfresh : (⟨i, k⟩ : Block) ∉ live := fun hl => h₂.live_hand _ hl hhand
  refine ⟨_, free₂, ?_, ⟨h₃.adopt hctrl, ?_⟩, hsteady, hfresh⟩
  · unfold takeHead
    rw [hhead]
    refine bind_ok_iff.mpr ⟨_, hun, bind_ok_iff.mpr ⟨_, hsp, bind_ok_iff.mpr ⟨_, onCtrl_in h₂.fits hin, ?_⟩⟩⟩
    have hin₃ : (m₂.setCtrl i (UInt8.ofNat k)).In i := hin
    rw [h₃.fits.linkAddr hin₃, hsteady.szAtom]
  · -- 新しい空きの相手は、手に残したブロックと重なる。
    have hold {d : Block} (hd : d ∈ freeSet free₂) :
        d ∈ freeSet free ∨ ∃ j, k ≤ j ∧ j < n ∧ d = ⟨i + 2 ^ j, j⟩ := by
      rcases (hfree d).mp hd with hd | hd
      · exact Or.inl ((mem_freeSet_erase h.layout.lists hi).mp hd).1
      · exact Or.inr hd
    have hnot {j : Nat} : (⟨i, j⟩ : Block) ∉ freeSet free₂ := by
      intro hd
      have heq := h₂.tiling.disjoint _ (Or.inl (Or.inl hd)) ⟨i, k⟩ (Or.inr hhand) i (Block.has_start _)
        (Block.has_start _)
      exact h₂.free_apart ⟨i, k⟩ (Or.inr hhand) (heq ▸ hd)
    intro s j hs hlo hhi
    rcases hold hlo with hlo' | ⟨j', _, hj', hlo'⟩
    · rcases hold hhi with hhi' | ⟨j', _, _, hhi'⟩
      · exact h.lone s j hs hlo' hhi'
      · have h₄ := congrArg Block.log hhi'
        have h₅ := congrArg Block.start hhi'
        dsimp only at h₄ h₅
        subst h₄
        have hsi : s = i := by omega
        rw [hsi] at hlo
        exact hnot hlo
    · have h₄ := congrArg Block.log hlo'
      have h₅ := congrArg Block.start hlo'
      dsimp only at h₄ h₅
      subst h₄
      rw [h₅] at hs
      have h₆ : (2 : Int) ^ (j + 1) ∣ i := (two_pow_dvd hj').trans halign
      have h₇ : (2 : Int) ^ (j + 1) ∣ 2 ^ j := (Int.dvd_add_right h₆).mp hs
      have h₈ := Int.le_of_dvd (two_pow_pos j) h₇
      have hpos := two_pow_pos j
      rw [pow_succ] at h₈
      omega

/-- `memsys5Malloc` は、十分な大きさの空きがなければ `NULL` を返し、あれば新しいブロックを渡す。 -/
theorem memsys5Malloc_heap {x : Int} (h : m.Heap free live) (hpos : 0 < x) (hx : x ≤ 1073741824) :
    (memsys5Malloc m x = .ok (m, none) ∧ ∀ d ∈ freeSet free, d.log < logOf m.szAtom x) ∨
    ∃ m' free' i, memsys5Malloc m x = .ok (m', some (i * m.szAtom)) ∧
      m'.Heap free' (insert ⟨i, logOf m.szAtom x⟩ live) ∧ m.Steady m' live ∧
      (⟨i, logOf m.szAtom x⟩ : Block) ∉ live := by
  have hA := h.layout.fits.atom
  have hround := (logOf_spec hx (s := m.szAtom) (by omega)).1
  obtain ⟨h₁, h₂, h₃, h₄⟩ := findBin_spec m.aiFreelist (logMax + 1 - logOf m.szAtom x) (logOf m.szAtom x)
  have hcall : memsys5Malloc m x = _ := (if_pos hpos).trans (memsys5MallocUnsafe_eq hpos hx hround)
  by_cases hbin : logMax < findBin m.aiFreelist (logMax + 1 - logOf m.szAtom x) (logOf m.szAtom x)
  · left
    refine ⟨hcall.trans (if_pos hbin), ?_⟩
    intro d hd
    by_contra hle
    have hlog := (h.layout.lists.bound d.log d.start hd).1
    have hneg := h₃ d.log (Nat.not_lt.mp hle) (hlog.trans_lt hbin)
    rw [h.layout.lists.head d.log hlog] at hneg
    have hd' : d.start ∈ free d.log := hd
    cases hl : free d.log with
    | nil =>
        rw [hl] at hd'
        cases hd'
    | cons s l =>
        rw [hl] at hneg
        have hs := (h.layout.lists.bound d.log s (by rw [hl]; exact List.mem_cons_self)).2.1
        exact absurd hneg (Int.not_lt.mpr hs)
  · right
    obtain ⟨n, hn⟩ : ∃ n, findBin m.aiFreelist (logMax + 1 - logOf m.szAtom x) (logOf m.szAtom x) = n := ⟨_, rfl⟩
    rw [if_neg hbin, hn] at hcall
    rw [hn] at h₁ h₂ h₃ h₄ hbin
    have hnle := Nat.not_lt.mp hbin
    have hge := h₄ (by omega)
    have hhead : m.aiFreelist n ∈ free n := by
      rw [h.layout.lists.head n hnle] at hge ⊢
      cases hl : free n with
      | nil =>
          rw [hl] at hge
          exact absurd hge (by decide)
      | cons s l => exact List.mem_cons_self
    obtain ⟨m', free', he, hh, hs, hf⟩ := takeHead_heap h h₁ hhead
    exact ⟨m', free', m.aiFreelist n, hcall.trans he, hh, hs, hf⟩

/-! ## 解放 -/

theorem mark_inj {j : Nat} (hj : j ≤ logMax) (hk : k ≤ logMax)
    (h : ctrlFree ||| UInt8.ofNat j = ctrlFree ||| UInt8.ofNat k) : j = k := by
  rw [← mark_logsize hj, ← mark_logsize hk, h]

theorem mark_ne_used {j : Nat} (hj : j ≤ logMax) : UInt8.ofNat j ≠ ctrlFree ||| UInt8.ofNat k := by
  intro h
  have h₁ : (UInt8.ofNat j).toNat < 32 := by
    rw [UInt8.toNat_ofNat']
    unfold logMax at hj
    omega
  have h₂ : 32 ≤ (ctrlFree ||| UInt8.ofNat k).toNat := by
    rw [UInt8.toNat_or]
    exact Nat.left_le_or
  rw [h] at h₁
  omega

theorem Mem5Global.Layout.log_le {hand : Set Block} {d : Block} (h : m.Layout free live hand)
    (hd : d ∈ freeSet free ∪ live ∪ hand) : d.log < 28 := by
  obtain ⟨h₁, h₂⟩ := h.tiling.inside d hd
  exact h.fits.log_lt h₁ h₂

/-- つなぎ合わせ終えると、相手が空いていないブロックが手に残る。 -/
theorem merge_layout (h : m.Layout free live {⟨b, k⟩}) (hlone : NoBuddies (freeSet free)) (hn : n + k = logMax)
    (hmark : m.ctrl b = ctrlFree ||| UInt8.ofNat k) : ∃ m' free' b' k',
    merge n m b k (2 ^ k) = .ok (m', b', k') ∧ m'.Layout free' live {⟨b', k'⟩} ∧ NoBuddies (freeSet free') ∧
      m'.ctrl b' = ctrlFree ||| UInt8.ofNat k' ∧ (⟨Tiling.sibling b' k', k'⟩ : Block) ∉ freeSet free' ∧
      m.Steady m' live := by
  induction n generalizing m free b k with
  | zero =>
      have := h.log_le (Or.inr rfl)
      unfold logMax at hn
      dsimp only at this
      omega
  | succ n ih =>
      have hk : k < logMax := by omega
      have hb : (⟨b, k⟩ : Block) ∈ ({⟨b, k⟩} : Set Block) := rfl
      have hbin := h.in_of_mem (Or.inr hb) (Block.has_start _)
      have halign : (2 : Int) ^ k ∣ b := h.tiling.aligned _ (Or.inr hb)
      have hpos := two_pow_pos k
      dsimp only at hbin
      rcases buddy_cases h.fits hbin hk with ⟨he, hodd, hend⟩ | ⟨o, he, ho, heq⟩
      · refine ⟨m, free, b, k, merge_stop (o := b) h.fits (Or.inl he), h, hlone, hmark, ?_, .refl⟩
        intro hd
        have hin := h.in_of_mem (Or.inl (Or.inl hd)) (Block.has_start _)
        have hlt := hin.2
        unfold Tiling.sibling at hlt
        rw [if_neg hodd] at hlt
        dsimp only at hlt
        omega
      · have heq : o = Tiling.sibling b k := heq
        have hne : o ≠ b := by
          rcases Tiling.lower_cases b k with ⟨h₁, h₂⟩ | ⟨h₁, h₂⟩
          · omega
          · omega
        by_cases hof : o ∈ free k
        · -- 相手は空いているので、並びから外してつなぎ合わせる。
          obtain ⟨hun, h₁, hs₁⟩ := h.unlink hof
          have hctrl := h.lists.mark k o hof
          have hst₁ : m.Steady (m.unlinked o k) live := ⟨unlinked_szAtom, unlinked_nBlock, hs₁⟩
          clear hs₁
          generalize m.unlinked o k = m₁ at hun h₁ hst₁
          have hf₁ := h₁.fits
          obtain ⟨lo, hi, hpair, hlo, hhand⟩ : ∃ lo hi, (if o < b then (o, b) else (b, o)) = (lo, hi) ∧
              lo = Tiling.lower b k ∧ ((lo = b ∧ hi = o) ∨ (lo = o ∧ hi = b)) ∧ hi = lo + 2 ^ k := by
            rcases Tiling.lower_cases b k with ⟨h₁, h₂⟩ | ⟨h₁, h₂⟩
            · exact ⟨b, o, if_neg (by omega), h₁.symm, Or.inl ⟨rfl, rfl⟩, by omega⟩
            · exact ⟨o, b, if_pos (by omega), by omega, Or.inr ⟨rfl, rfl⟩, by omega⟩
          obtain ⟨hcase, hhi⟩ := hhand
          have hset : (insert ⟨o, k⟩ {⟨b, k⟩} : Set Block) = {⟨lo, k⟩, ⟨lo + 2 ^ k, k⟩} := by
            rw [← hhi]
            rcases hcase with ⟨rfl, rfl⟩ | ⟨rfl, rfl⟩
            · exact Set.pair_comm _ _
            · rfl
          rw [hset] at h₁
          have hdvd : (2 : Int) ^ (k + 1) ∣ lo := by
            rw [hlo]
            exact Tiling.lower_dvd halign
          have h₂ := h₁.join hdvd
          have hm : (⟨lo, k + 1⟩ : Block) ∈ ({⟨lo, k + 1⟩} : Set Block) := rfl
          have hhaslo : (⟨lo, k + 1⟩ : Block).Has lo := Block.has_start _
          have hhashi : (⟨lo, k + 1⟩ : Block).Has hi := by
            rw [Tiling.halves_has, hhi]
            exact Or.inr (Block.has_start _)
          have hinlo := h₂.in_of_mem (Or.inr hm) hhaslo
          have hinhi := h₂.in_of_mem (Or.inr hm) hhashi
          obtain ⟨h₃, hs₃⟩ := h₂.setCtrl (c := ctrlFree ||| UInt8.ofNat (k + 1)) hm hhaslo
          obtain ⟨h₄, hs₄⟩ := h₃.setCtrl (c := 0) hm hhashi
          have hmark' : ((m₁.setCtrl lo (ctrlFree ||| UInt8.ofNat (k + 1))).setCtrl hi 0).ctrl lo =
              ctrlFree ||| UInt8.ofNat (k + 1) := by
            rw [ctrl_setCtrl h₃.fits (h₃.in_of_mem (Or.inr hm) hhashi) (h₃.in_of_mem (Or.inr hm) hhaslo),
              if_neg (by omega), ctrl_setCtrl hf₁ hinlo hinlo, if_pos rfl]
          have hlone' : NoBuddies (freeSet (Function.update free k ((free k).erase o))) :=
            hlone.mono fun d hd => ((mem_freeSet_erase h.lists hof).mp hd).1
          obtain ⟨m', free', b', k', hmg, h₅, hl₅, hm₅, hsib, hs₅⟩ := ih h₄ hlone' (by omega) hmark'
          refine ⟨m', free', b', k', ?_, h₅, hl₅, hm₅, hsib, ?_⟩
          · rw [merge_absorb h.fits hk he ho hctrl hun hf₁ hpair hinlo hinhi]
            exact hmg
          · exact ((hst₁.trans (.setCtrl hs₃)).trans (.setCtrl hs₄)).trans hs₅
        · refine ⟨m, free, b, k, merge_stop h.fits (Or.inr ⟨he, ho, ?_⟩), h, hlone, hmark, ?_, .refl⟩
          · obtain ⟨j, hj, hd⟩ := h.tiling.sibling_start (Or.inr hb) (heq ▸ ho.1) (heq ▸ ho.2)
            rw [← heq] at hd
            have hjle : j ≤ logMax := by omega
            rcases hd with (hd | hd) | hd
            · have hd' : o ∈ free j := hd
              rw [h.lists.mark j o hd']
              intro hc
              cases mark_inj hjle hk.le hc
              exact hof hd'
            · have hu := h.used _ hd
              dsimp only at hu
              rw [hu]
              exact mark_ne_used hjle
            · exact absurd (congrArg Block.start hd) hne
          · rw [← heq]
            exact hof

theorem Mem5Global.Layout.freeable (h : m.Layout free live ∅) (hb : (⟨i, k⟩ : Block) ∈ live) :
    m.Freeable (i * m.szAtom) i k := by
  have hA := h.fits.atom
  have hin := h.in_of_mem (Or.inl (Or.inr hb)) (Block.has_start _)
  have hlog := h.log_le (Or.inl (Or.inr hb))
  have hlt := h.fits.nBlock_lt
  have hctrl := h.used _ hb
  have hlast := (h.tiling.inside _ (Or.inl (Or.inr hb))).2
  dsimp only at hin hlog hctrl
  obtain ⟨h₁, h₂⟩ := hin
  refine ⟨?_, ⟨h₁, h₂⟩, Int.mul_tmod_left _ _, ?_, ?_, hlast⟩
  · rw [Int.mul_tdiv_cancel _ (by omega)]
    exact int32_of_range (by omega) (by omega)
  · rw [hctrl]
    interval_cases k <;> rfl
  · rw [hctrl]
    interval_cases k <;> rfl

/-- `memsys5Free` は、渡したブロックを空きに戻す。 -/
theorem memsys5Free_heap (h : m.Heap free live) (hb : (⟨i, k⟩ : Block) ∈ live) : ∃ m' free',
    memsys5Free m (some (i * m.szAtom)) = .ok m' ∧ m'.Heap free' (live \ {⟨i, k⟩}) ∧
      m.Steady m' (live \ {⟨i, k⟩}) := by
  have hfree := h.layout.freeable hb
  have h₀ := h.layout.release hb
  have hm : (⟨i, k⟩ : Block) ∈ ({⟨i, k⟩} : Set Block) := rfl
  have hlast : (⟨i, k⟩ : Block).Has (i + 2 ^ k - 1) := Block.has_last ⟨i, k⟩
  have hlog := h.layout.log_le (Or.inl (Or.inr hb))
  obtain ⟨h₁, hs₁⟩ := h₀.setCtrl (c := m.ctrl i ||| ctrlFree) hm (Block.has_start _)
  obtain ⟨h₂, hs₂⟩ := h₁.setCtrl (c := (m.setCtrl i (m.ctrl i ||| ctrlFree)).ctrl (i + 2 ^ k - 1) ||| ctrlFree) hm hlast
  obtain ⟨h₃, hs₃⟩ := h₂.setCtrl (c := ctrlFree ||| UInt8.ofNat k) hm (Block.has_start _)
  dsimp only at h₁ h₂ h₃ hs₁ hs₂ hs₃ hlog
  have hmark : (m.marked i k).ctrl i = ctrlFree ||| UInt8.ofNat k := by
    rw [marked, ctrl_setCtrl h₂.fits (by exact hfree.mem) (by exact hfree.mem), if_pos rfl]
  obtain ⟨m₄, free₄, b', k', hmg, h₄, hl₄, hm₄, hsib, hs₄⟩ := merge_layout (n := logMax - k) h₃ h.lone
    (by unfold logMax; omega) hmark
  have hb' : (⟨b', k'⟩ : Block) ∈ ({⟨b', k'⟩} : Set Block) := rfl
  obtain ⟨hl, h₅, hs₅⟩ := h₄.push hb' hm₄
  rw [sdiff_self] at h₅
  refine ⟨m₄.pushed b' k', Function.update free₄ k' (b' :: free₄ k'), ?_, ⟨h₅, ?_⟩, ?_⟩
  · show memsys5FreeUnsafe m (i * m.szAtom) = _
    rw [memsys5FreeUnsafe_eq h.layout.fits hfree]
    exact bind_ok_iff.mpr ⟨_, hmg, hl⟩
  · intro s j hs hlo hhi
    obtain ⟨h₆, h₇⟩ := Tiling.sibling_of_dvd hs
    have hpos := two_pow_pos j
    rcases mem_freeSet_cons.mp hlo with hlo' | hlo'
    · rcases mem_freeSet_cons.mp hhi with hhi' | hhi'
      · exact hl₄ s j hs hlo' hhi'
      · have h₈ := congrArg Block.log hhi'
        have h₉ := congrArg Block.start hhi'
        dsimp only at h₈ h₉
        subst h₈
        rw [← h₉, h₇] at hsib
        exact hsib hlo'
    · have h₈ := congrArg Block.log hlo'
      have h₉ := congrArg Block.start hlo'
      dsimp only at h₈ h₉
      subst h₈
      subst h₉
      rw [h₆] at hsib
      rcases mem_freeSet_cons.mp hhi with hhi' | hhi'
      · exact hsib hhi'
      · have := congrArg Block.start hhi'
        dsimp only at this
        omega
  · have hst₃ : m.Steady (m.marked i k) (live \ {⟨i, k⟩}) :=
      ((Steady.setCtrl hs₁).trans (.setCtrl hs₂)).trans (.setCtrl hs₃)
    exact (hst₃.trans hs₄).trans ⟨pushed_szAtom, pushed_nBlock, hs₅⟩

end Eleos.Mem5
