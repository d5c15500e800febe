import Eleos.Mem5.Host
import Eleos.Mem5.Lemmas.Loops

/-!
# プールの外に出ない呼び出し

`aCtrl` の印は、つなぎ合わせたブロックの外では呼び出しの前のままである。そこで、つなぎ合わせる相手は呼び出しの前の
状態から決まる。`next` と `prev` は、呼び出しの前の値か、範囲の中の値である。
-/

namespace Eleos.Mem5

open Mem5Global

variable {m m₀ m' : Mem5Global} {i j v lo hi : Int} {k : Nat} {c : UInt8} {next prev : Int}

/-! ## 変わらない部分 -/

/-- 配置と、プールの外のバイトは変わらない。 -/
structure Mem5Global.Kept (m m' : Mem5Global) : Prop where
  szAtom : m'.szAtom = m.szAtom
  nBlock : m'.nBlock = m.nBlock
  outside : ∀ x : Nat, m.nBlock * (m.szAtom + 1) ≤ x → m'.zPool x = m.zPool x

namespace Mem5Global

theorem Kept.refl : m.Kept m := ⟨rfl, rfl, fun _ _ => rfl⟩

theorem Kept.trans (h : m₀.Kept m) (h' : m.Kept m') : m₀.Kept m' := by
  refine ⟨h'.szAtom.trans h.szAtom, h'.nBlock.trans h.nBlock, ?_⟩
  intro x hx
  rw [← h.outside x hx]
  exact h'.outside x (by rw [h.szAtom, h.nBlock]; exact hx)

theorem Kept.fits (h : m.Kept m') (hf : m.Fits) : m'.Fits := hf.of_eq h.szAtom h.nBlock

theorem Fits.not_linkByte {x : Nat} (hf : m.Fits) (hi : m.In i) (hx : m.nBlock * (m.szAtom + 1) ≤ x) :
    ¬ m.LinkByte i x := by
  have h₁ := hf.mul_lt hi.2
  have h₂ := hf.atom
  have h₃ := hi.1.trans_lt hi.2
  rw [mul_add] at hx
  unfold LinkByte
  omega

theorem In.not_ctrlByte {x : Nat} (hi : m.In i) (hx : m.nBlock * (m.szAtom + 1) ≤ x) :
    ¬ m.CtrlByte i x := by
  have h₁ := hi.2
  rw [mul_add] at hx
  unfold CtrlByte
  omega

theorem Kept.setNext (hf : m.Fits) (hi : m.In i) : m.Kept (m.setNext i v) :=
  ⟨rfl, rfl, fun _ hx => zPool_setNext hf hi (hf.not_linkByte hi hx)⟩

theorem Kept.setPrev (hf : m.Fits) (hi : m.In i) : m.Kept (m.setPrev i v) :=
  ⟨rfl, rfl, fun _ hx => zPool_setPrev hf hi (hf.not_linkByte hi hx)⟩

theorem Kept.setCtrl (hf : m.Fits) (hi : m.In i) : m.Kept (m.setCtrl i c) :=
  ⟨rfl, rfl, fun _ hx => zPool_setCtrl hf hi (hi.not_ctrlByte hx)⟩

theorem Kept.setHead : m.Kept (m.setHead k v) := ⟨rfl, rfl, fun _ _ => rfl⟩

theorem Kept.bypass (hf : m.Fits) (hp : prev < m.nBlock) : m.Kept (m.bypass k next prev) := by
  unfold Mem5Global.bypass
  split
  · exact .setHead
  · exact .setNext hf ⟨by omega, hp⟩

theorem Kept.backTo (hf : m.Fits) (hn : next < m.nBlock) : m.Kept (m.backTo next prev) := by
  unfold Mem5Global.backTo
  split
  · exact .setPrev hf ⟨by omega, hn⟩
  · exact .refl

theorem Kept.unlinked (hf : m.Fits) (h : m.LinkInside i) : m.Kept (m.unlinked i k) := by
  have h₁ : m.Kept (m.bypass k (m.next i) (m.prev i)) := .bypass hf h.2
  exact h₁.trans (.backTo (h₁.fits hf) (by rw [bypass_nBlock]; exact h.1))

theorem Kept.pushed (hf : m.Fits) (hi : m.In i) (hx : m.aiFreelist k < m.nBlock) : m.Kept (m.pushed i k) := by
  have h₁ : m.Kept (m.setNext i (m.aiFreelist k)) := .setNext hf hi
  have h₂ := h₁.trans (.setPrev (h₁.fits hf) hi (v := -1))
  have h₃ : m.Kept (((m.setNext i (m.aiFreelist k)).setPrev i (-1)).backTo (m.aiFreelist k) i) :=
    h₂.trans (.backTo (h₂.fits hf) hx)
  exact h₃.trans .setHead

end Mem5Global

theorem memsys5Link_kept (hf : m.Fits) (h : memsys5Link m i k = .ok m') : m.Kept m' := by
  rcases memsys5Link_cases (i := i) (k := k) hf with he | ⟨hs, hx, he⟩
  · cases h.symm.trans he
  · cases h.symm.trans he
    exact .pushed hf hs.mem hx

/-- 検査で止まるか、配置とプールの外を変えずに成功する。 -/
def Mem5Global.Tame (m : Mem5Global) (r : Except Stop Mem5Global) : Prop :=
  r = .error .abort ∨ ∃ m', r = .ok m' ∧ m.Kept m'

/-! ## 割り当て -/

theorem split_tame {n : Nat} (hf : m.Fits) (hi : m.In i) (hfit : i + 2 ^ n ≤ m.nBlock) : m.Tame (split i k n m) := by
  induction n generalizing m with
  | zero => exact Or.inr ⟨m, rfl, .refl⟩
  | succ n ih =>
      have h₁ := two_pow_pos n
      have h₂ := hf.nBlock_lt
      have h₃ := hi.1
      rw [pow_succ] at hfit
      have hj : int32 (i + 2 ^ n) = i + 2 ^ n := int32_of_range (by omega) (by omega)
      have hin : m.In (i + 2 ^ n) := ⟨by omega, by omega⟩
      unfold split
      by_cases hk : k < n + 1
      · rw [if_pos hk, hj]
        dsimp only
        rw [onCtrl_in hf hin]
        have hkept : m.Kept (m.setCtrl (i + 2 ^ n) (ctrlFree ||| UInt8.ofNat n)) := .setCtrl hf hin
        rcases memsys5Link_cases (i := i + 2 ^ n) (k := n) (hkept.fits hf) with he | ⟨hs, hx, he⟩
        · left
          exact bind_error_iff.mpr (Or.inr ⟨_, rfl, bind_error_iff.mpr (Or.inl he)⟩)
        · have hk₁ := hkept.trans (memsys5Link_kept (hkept.fits hf) he)
          have hn := hk₁.nBlock
          rcases ih (hk₁.fits hf) ⟨hi.1, by rw [hn]; exact hi.2⟩ (by rw [hn]; omega) with he' | ⟨m', he', hk'⟩
          · left
            exact bind_error_iff.mpr (Or.inr ⟨_, rfl, bind_error_iff.mpr (Or.inr ⟨_, he, he'⟩)⟩)
          · right
            exact ⟨m', bind_ok_iff.mpr ⟨_, rfl, bind_ok_iff.mpr ⟨_, he, he'⟩⟩, hk₁.trans hk'⟩
      · rw [if_neg hk]
        exact Or.inr ⟨m, rfl, .refl⟩

theorem takeHead_contained {iBin : Nat} (hf : m.Fits) (hk : k ≤ iBin)
    (h : m.Sized (m.aiFreelist iBin) iBin →
      m.LinkInside (m.aiFreelist iBin) ∧ m.aiFreelist iBin + 2 ^ iBin ≤ m.nBlock) :
    takeHead m k iBin = .error .abort ∨ ∃ m', takeHead m k iBin = .ok (m', some (m.aiFreelist iBin * m.szAtom)) ∧
      m.Kept m' ∧ m.In (m.aiFreelist iBin) ∧ m.aiFreelist iBin + 2 ^ k ≤ m.nBlock := by
  by_cases hs : m.Sized (m.aiFreelist iBin) iBin
  · obtain ⟨hl, hfit⟩ := h hs
    have hun := memsys5Unlink_ok hf hs hl.1 hl.2
    have hkept : m.Kept (m.unlinked (m.aiFreelist iBin) iBin) := .unlinked hf hl
    have hle := two_pow_le hk
    rcases split_tame (k := k) (hkept.fits hf) ⟨hs.mem.1, by rw [hkept.nBlock]; exact hs.mem.2⟩
      (by rw [hkept.nBlock]; exact hfit) with he | ⟨m₂, he, hk₂⟩
    · left
      exact bind_error_iff.mpr (Or.inr ⟨_, hun, bind_error_iff.mpr (Or.inl he)⟩)
    · right
      have hk₂ := hkept.trans hk₂
      have hin : m₂.In (m.aiFreelist iBin) := ⟨hs.mem.1, by rw [hk₂.nBlock]; exact hs.mem.2⟩
      have hk₃ := hk₂.trans (.setCtrl (hk₂.fits hf) hin (c := UInt8.ofNat k))
      refine ⟨_, ?_, hk₃, hs.mem, by omega⟩
      refine bind_ok_iff.mpr ⟨_, hun, bind_ok_iff.mpr ⟨_, he, bind_ok_iff.mpr ⟨_, onCtrl_in (hk₂.fits hf) hin, ?_⟩⟩⟩
      have hin₃ : (m₂.setCtrl (m.aiFreelist iBin) (UInt8.ofNat k)).In (m.aiFreelist iBin) := hin
      rw [(hk₃.fits hf).linkAddr hin₃, hk₃.szAtom]
  · left
    exact bind_error_iff.mpr (Or.inl (memsys5Unlink_abort hf hs))

/-- 呼び出しは、値を返さないか、配置とプールの外を変えずにプールの中のブロックを返す。 -/
inductive Mem5Global.Outcome (m : Mem5Global) (c : Call) : Prop where
  | stop {e : Stop} : m.call c = .error e → e ≠ .outOfBounds → Outcome m c
  | done {m' : Mem5Global} {r : Option Int} : m.call c = .ok (m', r) → m.Kept m' →
      (∀ n p, c = .malloc n → r = some p → 0 ≤ p ∧ p + n ≤ m.nBlock * m.szAtom) → Outcome m c

theorem malloc_outcome {n : Int} (hf : m.Fits) (hs : m.Sane (.malloc n)) : m.Outcome (.malloc n) := by
  have hnull (he : m.call (.malloc n) = .ok (m, none)) : m.Outcome (.malloc n) :=
    .done he .refl fun _ _ _ hr => nomatch hr
  by_cases hpos : 0 < n
  · have hcall : m.call (.malloc n) = memsys5MallocUnsafe m n := if_pos hpos
    by_cases hn : (0x40000000 : Int) < n
    · apply hnull
      rw [hcall]
      unfold memsys5MallocUnsafe check
      rw [if_pos hpos, if_pos hn]
      rfl
    · cases hk : roundLogsize n 33 m.szAtom 0 with
      | error e =>
          refine .stop (e := .spin) ?_ (by simp)
          rw [hcall]
          unfold memsys5MallocUnsafe check
          rw [if_pos hpos, if_neg hn, hk, roundLogsize_error hk]
          rfl
      | ok k =>
          have hround := roundLogsize_ok (s := m.szAtom) (a := 0) (r := k) (Int.not_lt.mp hn) (by have := hf.atom; omega)
            (by rw [pow_zero, mul_one]; exact hk)
          rw [memsys5MallocUnsafe_eq hpos (Int.not_lt.mp hn) hk] at hcall
          by_cases hbin : logMax < findBin m.aiFreelist (logMax + 1 - k) k
          · exact hnull (hcall.trans (if_pos hbin))
          · rw [if_neg hbin] at hcall
            have hbin := Nat.not_lt.mp hbin
            have hspec := (findBin_spec m.aiFreelist (logMax + 1 - k) k).1
            rcases takeHead_contained hf hspec fun hsz => hs k hk hbin hsz.mem.2 hsz.ctrl with
              he | ⟨m₂, he, hkept, hin, hfit⟩
            · exact .stop (hcall.trans he) (by simp)
            · refine .done (hcall.trans he) hkept ?_
              rintro _ _ ⟨⟩ ⟨⟩
              refine ⟨hf.mul_nonneg hin.1, ?_⟩
              have hatom := hf.atom
              have hmul : (m.aiFreelist (findBin m.aiFreelist (logMax + 1 - k) k) + 2 ^ k) * m.szAtom ≤
                  m.nBlock * m.szAtom := Int.mul_le_mul_of_nonneg_right hfit (by omega)
              rw [add_mul, mul_comm (2 ^ k)] at hmul
              have := hround.2.1
              omega
  · exact hnull (if_neg hpos)

/-! ## 解放 -/

/-- つなぎ合わせる途中の状態。`[lo, hi)` の外の `aCtrl` は初めのままである。 -/
structure Mem5Global.Follows (m₀ m : Mem5Global) (lo hi : Int) : Prop where
  kept : m₀.Kept m
  ctrl : ∀ j, m₀.In j → j < lo ∨ hi ≤ j → m.ctrl j = m₀.ctrl j
  next : ∀ j, m₀.In j → m.next j = m₀.next j ∨ m.next j < m₀.nBlock
  prev : ∀ j, m₀.In j → m.prev j = m₀.prev j ∨ m.prev j < m₀.nBlock

theorem Mem5Global.Follows.mono {lo' hi' : Int} (h : m₀.Follows m lo hi) (hlo : lo' ≤ lo) (hhi : hi ≤ hi') :
    m₀.Follows m lo' hi' :=
  ⟨h.kept, fun j hj ho => h.ctrl j hj (by omega), h.next, h.prev⟩

theorem Mem5Global.Follows.inside (h : m₀.Follows m lo hi) (hj : m₀.In j) (hl : m₀.LinkInside j) : m.LinkInside j := by
  have hn := h.kept.nBlock
  constructor
  · rcases h.next j hj with he | he
    · rw [he, hn]
      exact hl.1
    · rw [hn]
      exact he
  · rcases h.prev j hj with he | he
    · rw [he, hn]
      exact hl.2
    · rw [hn]
      exact he

theorem Mem5Global.Follows.setCtrl (hf : m₀.Fits) (h : m₀.Follows m lo hi) (hi' : m₀.In i) (hlo : lo ≤ i) (hhi : i < hi) :
    m₀.Follows (m.setCtrl i c) lo hi := by
  have hin {j : Int} (hj : m₀.In j) : m.In j := ⟨hj.1, by rw [h.kept.nBlock]; exact hj.2⟩
  have hfm := h.kept.fits hf
  refine ⟨h.kept.trans (.setCtrl hfm (hin hi')), ?_, ?_, ?_⟩
  · intro j hj ho
    rw [ctrl_setCtrl hfm (hin hi') (hin hj), if_neg (by omega)]
    exact h.ctrl j hj ho
  · intro j hj
    rw [next_setCtrl hfm (hin hi') (hin hj)]
    exact h.next j hj
  · intro j hj
    rw [prev_setCtrl hfm (hin hi') (hin hj)]
    exact h.prev j hj

theorem Mem5Global.Follows.unlinked (hf : m₀.Fits) (h : m₀.Follows m lo hi) (hl : m.LinkInside i) :
    m₀.Follows (m.unlinked i k) lo hi := by
  have hin {j : Int} (hj : m₀.In j) : m.In j := ⟨hj.1, by rw [h.kept.nBlock]; exact hj.2⟩
  have hfm := h.kept.fits hf
  have hn := h.kept.nBlock
  refine ⟨h.kept.trans (.unlinked hfm hl), ?_, ?_, ?_⟩
  · intro j hj ho
    rw [unlinked_ctrl hfm hl.1 hl.2 (hin hj)]
    exact h.ctrl j hj ho
  · intro j hj
    rw [unlinked_next hfm hl.1 hl.2 (hin hj)]
    split
    · right
      rw [← hn]
      exact hl.1
    · exact h.next j hj
  · intro j hj
    rw [unlinked_prev hfm hl.1 hl.2 (hin hj)]
    split
    · right
      rw [← hn]
      exact hl.2
    · exact h.prev j hj

theorem merge_contained {n : Nat} {b : Int} (hf : m₀.Fits) (hb : m₀.In b) (hn : n + k = logMax)
    (h : m₀.Follows m b (b + 2 ^ k)) (hs : ∀ o ∈ m₀.freeBuddies n b k, m₀.LinkInside o) :
    merge n m b k (2 ^ k) = .error .abort ∨
      ∃ m' b' k', merge n m b k (2 ^ k) = .ok (m', b', k') ∧ m₀.Kept m' := by
  induction n generalizing m b k with
  | zero => exact Or.inr ⟨m, b, k, rfl, h.kept⟩
  | succ n ih =>
      have hk : k < logMax := by omega
      have hnb := h.kept.nBlock
      have hfm := h.kept.fits hf
      have hpos := two_pow_pos k
      have hin {j : Int} (hj : m₀.In j) : m.In j := ⟨hj.1, by rw [hnb]; exact hj.2⟩
      rcases buddy_cases hfm (hin hb) hk with ⟨he, _, _⟩ | ⟨o, he, ho, heq⟩
      · exact Or.inr ⟨m, b, k, merge_stop (o := b) hfm (Or.inl he), h.kept⟩
      · have ho₀ : m₀.In o := ⟨ho.1, by rw [← hnb]; exact ho.2⟩
        -- 相手はつなぎ合わせたブロックの外にあるので、その印は初めのままである。
        have hctrl : m.ctrl o = m₀.ctrl o := by
          apply h.ctrl o ho₀
          rw [heq]
          split
          · left; omega
          · right; omega
        by_cases hmark : m₀.ctrl o = ctrlFree ||| UInt8.ofNat k
        · have hmem : m₀.freeBuddies (n + 1) b k = o :: m₀.freeBuddies n (min b o) (k + 1) := by
            rw [Mem5Global.freeBuddies, ← heq, if_pos ⟨ho₀.2, hmark⟩]
          rw [hmem] at hs
          have hl := h.inside ho₀ (hs o List.mem_cons_self)
          have hsized : m.Sized o k := ⟨ho, Nat.le_of_lt hk, by rw [hctrl, hmark]; exact mark_logsize (Nat.le_of_lt hk)⟩
          have hun := memsys5Unlink_ok hfm hsized hl.1 hl.2
          obtain ⟨lo', hi', hpair, hlo, hhi, hinl, hinh⟩ : ∃ lo' hi', (if o < b then (o, b) else (b, o)) = (lo', hi') ∧
              lo' = min b o ∧ hi' = lo' + 2 ^ k ∧ m₀.In lo' ∧ m₀.In hi' := by
            by_cases hlt : o < b
            · refine ⟨o, b, if_pos hlt, by omega, ?_, ho₀, hb⟩
              split at heq <;> omega
            · refine ⟨b, o, if_neg hlt, by omega, ?_, hb, ho₀⟩
              split at heq <;> omega
          have hregion : m₀.Follows (m.unlinked o k) lo' (lo' + 2 ^ (k + 1)) := by
            refine (h.unlinked hf hl).mono (by omega) ?_
            rw [pow_succ]
            split at heq <;> omega
          have hpow : (2 : Int) ^ (k + 1) = 2 ^ k * 2 := pow_succ 2 k
          have hfol := (hregion.setCtrl hf hinl (c := ctrlFree ||| UInt8.ofNat (k + 1)) (by omega) (by omega)).setCtrl
            hf hinh (c := 0) (by omega) (by omega)
          have hin₁ {j : Int} (hj : m₀.In j) : (m.unlinked o k).In j := ⟨hj.1, by rw [unlinked_nBlock, hnb]; exact hj.2⟩
          rw [merge_absorb hfm hk he ho (hctrl.trans hmark) hun (hregion.kept.fits hf) hpair (hin₁ hinl) (hin₁ hinh)]
          exact ih hinl (by omega) hfol (by rw [hlo]; exact fun o' ho' => hs o' (List.mem_cons_of_mem _ ho'))
        · exact Or.inr ⟨m, b, k, merge_stop hfm (Or.inr ⟨he, ho, by rw [hctrl]; exact hmark⟩), h.kept⟩

theorem Mem5Global.Freeable.follows {p b : Int} (hf : m.Fits) (h : m.Freeable p b k) :
    m.Follows (m.marked b k) b (b + 2 ^ k) := by
  have hpos := two_pow_pos k
  have hb := h.mem
  have hin : m.In (b + 2 ^ k - 1) := ⟨by have := hb.1; omega, by have := h.last; omega⟩
  have h₀ : m.Follows m b (b + 2 ^ k) := ⟨.refl, fun _ _ _ => rfl, fun _ _ => Or.inl rfl, fun _ _ => Or.inl rfl⟩
  exact ((h₀.setCtrl hf hb (by omega) (by omega)).setCtrl hf hin (by omega) (by omega)).setCtrl hf hb (by omega) (by omega)

theorem free_tame {p : Int} (hf : m.Fits) (hs : m.Sane (.free (some p))) : m.Tame (memsys5FreeUnsafe m p) := by
  by_cases h : ∃ b k, m.Freeable p b k
  · obtain ⟨b, k, h⟩ := h
    have hlog := hf.log_lt h.mem.1 h.last
    have hbud : ∀ o ∈ m.freeBuddies (logMax - k) b k, m.LinkInside o := by
      have hs' := hs
      simp only [Mem5Global.Sane, h.index, h.log] at hs'
      exact hs'
    rw [memsys5FreeUnsafe_eq hf h]
    rcases merge_contained hf h.mem (by unfold logMax; omega) (h.follows hf) hbud with he | ⟨m₁, b₁, k₁, he, hkept⟩
    · left
      rw [he]
      rfl
    · rcases memsys5Link_cases (i := b₁) (k := k₁) (hkept.fits hf) with hl | ⟨_, _, hl⟩
      · left
        exact bind_error_iff.mpr (Or.inr ⟨_, he, hl⟩)
      · right
        exact ⟨_, bind_ok_iff.mpr ⟨_, he, hl⟩, hkept.trans (memsys5Link_kept (hkept.fits hf) hl)⟩
  · left
    exact memsys5FreeUnsafe_abort hf fun b k hb => h ⟨b, k, hb⟩

theorem free_outcome {p : Option Int} (hf : m.Fits) (hs : m.Sane (.free p)) : m.Outcome (.free p) := by
  have htame : m.Tame (memsys5Free m p) := by
    cases p with
    | none => exact Or.inl rfl
    | some p => exact free_tame hf hs
  rcases htame with he | ⟨m', he, hkept⟩
  · exact .stop (bind_error_iff.mpr (Or.inl he)) (by simp)
  · exact .done (bind_ok_iff.mpr ⟨m', he, rfl⟩) hkept fun _ _ hc => nomatch hc

/-! ## 呼び出しの列 -/

theorem call_outcome {c : Call} (hf : m.Fits) (hs : m.Sane c) : m.Outcome c := by
  cases c with
  | malloc n => exact malloc_outcome hf hs
  | free p => exact free_outcome hf hs

theorem Mem5Global.Outcome.contained {c : Call} (h : m.Outcome c) : m.Contained c := by
  cases h with
  | stop he hne =>
      refine ⟨by rw [he]; simpa using hne, ?_, ?_⟩
      · intro m' r h
        cases he.symm.trans h
      · intro _ m' p _ h
        cases he.symm.trans h
  | done he hkept hr =>
      refine ⟨by rw [he]; simp, ?_, ?_⟩
      · intro m' r h
        cases he.symm.trans h
        exact hkept.outside
      · intro n m' p hc h
        cases he.symm.trans h
        exact hr n p hc rfl

theorem Mem5Global.Outcome.fits {c : Call} {r : Option Int} (hf : m.Fits) (h : m.Outcome c)
    (he : m.call c = .ok (m', r)) : m'.Fits := by
  cases h with
  | stop he' _ => cases he.symm.trans he'
  | done he' hkept _ =>
      cases he.symm.trans he'
      exact hkept.fits hf

theorem Mem5Global.Along.contained {hs : List HostCall} (hf : m.Fits) (h : m.Along Mem5Global.Sane hs) :
    m.Along Mem5Global.Contained hs := by
  induction hs generalizing m with
  | nil => trivial
  | cons c hs ih =>
      have hfr : (m.rewrite c.host).Fits := hf.of_eq rfl rfl
      have hout := call_outcome hfr h.1
      refine ⟨hout.contained, ?_⟩
      intro m' r he
      exact ih (hout.fits hfr he) (h.2 m' r he)

end Eleos.Mem5
