import Eleos.Mem5.Lemmas.Serve
import Mathlib.Data.List.Perm.Subperm

/-!
# `memsys5Init` の結果
-/

namespace Eleos.Mem5

open Mem5Global

variable {m m' : Mem5Global} {free : Nat → List Int} {off : Int} {k n : Nat}

/-! ## 大きさ -/

theorem int32_mul_two (x : Int) : int32 (int32 x * 2) = int32 (x * 2) := by
  unfold int32; omega

theorem growAtom_ok {fuel a : Nat} {s : Int} (h : growAtom fuel (int32 (2 ^ a)) = .ok s) :
    8 ≤ s ∧ ∃ c, s = 2 ^ c := by
  induction fuel generalizing a with
  | zero => cases h
  | succ fuel ih =>
      unfold growAtom at h
      by_cases hlt : int32 (2 ^ a) < 8
      · rw [if_pos hlt, int32_mul_two, ← pow_succ] at h
        exact ih h
      · rw [if_neg hlt] at h
        rw [← Except.ok.inj h]
        refine ⟨Int.not_lt.mp hlt, a, ?_⟩
        by_cases ha : a ≤ 30
        · have h₁ : (2 : Int) ^ a ≤ 2 ^ 30 := two_pow_le ha
          have h₂ := two_pow_pos a
          exact int32_of_range (by omega) (by omega)
        · -- 2 ^ 31 は負の数に、それより大きいべきは 0 に折り返す。
          exfalso
          apply hlt
          obtain ⟨c, rfl⟩ : ∃ c, a = 31 + c := ⟨a - 31, by omega⟩
          rw [pow_add]
          unfold int32
          omega

theorem memsys5Link_shape {i : Int} (h : memsys5Link m i k = .ok m') :
    m'.szAtom = m.szAtom ∧ m'.nBlock = m.nBlock := by
  have hon {a : Mem5Global} {j : Int} {x y : Mem5Global} (he : a.onLink j x = .ok y) : y = x := by
    unfold onLink at he
    split at he
    · cases he; rfl
    · cases he
  obtain ⟨_, _, h⟩ := bind_ok_iff.mp h
  obtain ⟨m₁, h₁, h⟩ := bind_ok_iff.mp h
  obtain ⟨m₂, h₂, h⟩ := bind_ok_iff.mp h
  obtain ⟨m₃, h₃, h⟩ := bind_ok_iff.mp h
  have h₄ : m₃.szAtom = m₂.szAtom ∧ m₃.nBlock = m₂.nBlock := by
    unfold linkHead at h₃
    split at h₃
    · obtain ⟨_, _, h₃⟩ := bind_ok_iff.mp h₃
      rw [hon h₃]
      exact ⟨rfl, rfl⟩
    · cases h₃
      exact ⟨rfl, rfl⟩
  cases h
  rw [hon h₂, hon h₁] at h₄
  exact h₄

theorem carveOne_shape {r : Mem5Global × Int} (h : carveOne m off k = .ok r) :
    r.1.szAtom = m.szAtom ∧ r.1.nBlock = m.nBlock := by
  unfold carveOne at h
  split at h
  · obtain ⟨m₁, h₁, h⟩ := bind_ok_iff.mp h
    obtain ⟨m₂, h₂, h⟩ := bind_ok_iff.mp h
    rw [← Except.ok.inj h]
    obtain ⟨h₃, h₄⟩ := memsys5Link_shape h₂
    unfold onCtrl at h₁
    split at h₁
    · rw [← Except.ok.inj h₁] at h₃ h₄
      exact ⟨h₃, h₄⟩
    · cases h₁
  · rw [← Except.ok.inj h]
    exact ⟨rfl, rfl⟩

theorem carve_shape (h : carve n m off = .ok m') : m'.szAtom = m.szAtom ∧ m'.nBlock = m.nBlock := by
  induction n generalizing m off with
  | zero => cases h; exact ⟨rfl, rfl⟩
  | succ n ih =>
      obtain ⟨r, hr, h⟩ := bind_ok_iff.mp h
      obtain ⟨_, _, h⟩ := bind_ok_iff.mp h
      obtain ⟨h₁, h₂⟩ := carveOne_shape hr
      obtain ⟨h₃, h₄⟩ := ih h
      exact ⟨h₃.trans h₁, h₄.trans h₂⟩

/-! ## 空きの並びの構成 -/

/-- `off` までを空きのブロックで覆った状態から、`nBlock` までを覆う。 -/
theorem carve_heap (hf : m.Fits) (hl : m.Lists free) (ht : Tiling off (freeSet free)) (hno : NoBuddies (freeSet free))
    (hsmall : ∀ j < n, free j = []) (h₀ : 0 ≤ off) (hle : off ≤ m.nBlock) (hlt : m.nBlock < off + 2 ^ n)
    (hdvd : (2 : Int) ^ n ∣ off) (hn : n ≤ logMax + 1) :
    ∃ m' free', carve n m off = .ok m' ∧ m'.Heap free' ∅ := by
  induction n generalizing m free off with
  | zero =>
      refine ⟨m, free, rfl, ⟨hf, hl, ?_, fun _ h => absurd h (Set.notMem_empty _), fun _ h =>
        absurd h (Set.notMem_empty _), ?_⟩, hno⟩
      · have heq : off = m.nBlock := by
          rw [pow_zero] at hlt
          omega
        rw [Set.union_empty, Set.union_empty, ← heq]
        exact ht
      · rintro _ (h | h)
        · exact absurd h (Set.notMem_empty _)
        · exact absurd h (Set.notMem_empty _)
  | succ n ih =>
      have hnb := hf.nBlock_lt
      have hpos := two_pow_pos n
      have h₃₀ : (2 : Int) ^ n ≤ 2 ^ 30 := two_pow_le (by unfold logMax at hn; omega)
      have hdvd' : (2 : Int) ^ n ∣ off := (two_pow_dvd (Nat.le_succ n)).trans hdvd
      have hpow : (2 : Int) ^ (n + 1) = 2 ^ n + 2 ^ n := by rw [pow_succ]; omega
      have h32 : int32 (off + 2 ^ n) = off + 2 ^ n := int32_of_range (by omega) (by omega)
      by_cases hfit : off + 2 ^ n ≤ m.nBlock
      · have hin : m.In off := ⟨h₀, by omega⟩
        have hnew : ∀ j, off ∉ free j := by
          intro j hj
          have hstop := (ht.inside ⟨off, j⟩ hj).2
          have hp := two_pow_pos j
          unfold Block.stop at hstop
          dsimp only at hstop
          omega
        have hl₁ := hl.setCtrl (c := UInt8.ofNat n ||| ctrlFree) hf hin hnew
        have hf₁ : (m.setCtrl off (UInt8.ofNat n ||| ctrlFree)).Fits := hf.of_eq rfl rfl
        have hmark : (m.setCtrl off (UInt8.ofNat n ||| ctrlFree)).ctrl off = ctrlFree ||| UInt8.ofNat n := by
          rw [ctrl_setCtrl hf hin hin, if_pos rfl, UInt8.or_comm]
        have hsized : (m.setCtrl off (UInt8.ofNat n ||| ctrlFree)).Sized off n :=
          ⟨hin, Nat.le_of_lt_succ hn, by rw [hmark]; exact mark_logsize (Nat.le_of_lt_succ hn)⟩
        have hlink := memsys5Link_ok hf₁ hsized (hl₁.head_lt hin (Nat.le_of_lt_succ hn))
        have hl₂ := hl₁.push hf₁ hin (Nat.le_of_lt_succ hn) hnew hmark
        have hmem {b : Block} : b ∈ freeSet (Function.update free n (off :: free n)) ↔
            b ∈ freeSet free ∨ b = ⟨off, n⟩ := mem_freeSet_cons
        have ht₂ := ht.extend h₀ hdvd' fun b => hmem (b := b)
        have hno₂ : NoBuddies (freeSet (Function.update free n (off :: free n))) := by
          intro s j hs hlo hhi
          have hold {t : Int} (hj : j ≠ n) (hm : (⟨t, j⟩ : Block) ∈ freeSet (Function.update free n (off :: free n))) :
              (⟨t, j⟩ : Block) ∈ freeSet free := by
            rcases hmem.mp hm with hm | hm
            · exact hm
            · exact absurd (congrArg Block.log hm) hj
          have honly {t : Int} (hm : (⟨t, n⟩ : Block) ∈ freeSet (Function.update free n (off :: free n))) : t = off := by
            rcases hmem.mp hm with hm | hm
            · have hm' : t ∈ free n := hm
              rw [hsmall n (Nat.lt_succ_self n)] at hm'
              cases hm'
            · exact congrArg Block.start hm
          by_cases hj : j = n
          · subst hj
            have h₁ := honly hlo
            have h₂ := honly hhi
            omega
          · exact hno s j hs (hold hj hlo) (hold hj hhi)
        have hnb₂ : ((m.setCtrl off (UInt8.ofNat n ||| ctrlFree)).pushed off n).nBlock = m.nBlock := pushed_nBlock
        have hf₂ : ((m.setCtrl off (UInt8.ofNat n ||| ctrlFree)).pushed off n).Fits :=
          hf₁.of_eq pushed_szAtom pushed_nBlock
        generalize (m.setCtrl off (UInt8.ofNat n ||| ctrlFree)).pushed off n = m₂ at hlink hl₂ hnb₂ hf₂
        obtain ⟨m', free', hc, hh⟩ := ih hf₂ hl₂ ht₂ hno₂
          (fun j hj => by rw [Function.update_of_ne (Nat.ne_of_lt hj)]; exact hsmall j (Nat.lt_succ_of_lt hj))
          (by omega) (by omega) (by omega) (Int.dvd_add hdvd' (dvd_refl _)) (Nat.le_of_succ_le hn)
        refine ⟨m', free', ?_, hh⟩
        refine bind_ok_iff.mpr ⟨(m₂, off + 2 ^ n), ?_, ?_⟩
        · unfold carveOne
          rw [h32, if_pos hfit]
          exact bind_ok_iff.mpr ⟨_, onCtrl_in hf hin, bind_ok_iff.mpr ⟨_, hlink, rfl⟩⟩
        · have h32' : int32 (off + 2 ^ n + 2 ^ n) = off + 2 ^ n + 2 ^ n := int32_of_range (by omega) (by omega)
          refine bind_ok_iff.mpr ⟨(), check_ok_iff.mpr ?_, hc⟩
          rw [h32']
          omega
      · obtain ⟨m', free', hc, hh⟩ := ih hf hl ht hno (fun j hj => hsmall j (Nat.lt_succ_of_lt hj)) h₀ hle (by omega)
          hdvd' (Nat.le_of_succ_le hn)
        refine ⟨m', free', ?_, hh⟩
        refine bind_ok_iff.mpr ⟨(m, off), ?_, bind_ok_iff.mpr ⟨(), check_ok_iff.mpr ?_, hc⟩⟩
        · unfold carveOne
          rw [h32, if_neg hfit]
        · rw [h32]
          omega

theorem carve_negative (h : m.nBlock < 0) (hn : n ≤ logMax + 1) : carve n m 0 = .ok m := by
  induction n with
  | zero => rfl
  | succ n ih =>
      have hpos := two_pow_pos n
      have h₃₀ : (2 : Int) ^ n ≤ 2 ^ 30 := two_pow_le (by unfold logMax at hn; omega)
      have h32 : int32 (0 + 2 ^ n) = 2 ^ n := by rw [Int.zero_add, int32_of_range (by omega) (by omega)]
      refine bind_ok_iff.mpr ⟨(m, 0), ?_, bind_ok_iff.mpr ⟨(), check_ok_iff.mpr ?_, ih (Nat.le_of_succ_le hn)⟩⟩
      · unfold carveOne
        rw [h32, if_neg (by omega)]
      · rw [h32]
        omega

/-- 空きの並びを作る前の状態。 -/
def fresh (zPool : Memory) (szAtom nBlock : Int) : Mem5Global :=
  { szAtom := szAtom, nBlock := nBlock, zPool := zPool, aiFreelist := fun _ => -1 }

theorem fresh_lists {z : Memory} {s x : Int} : (fresh z s x).Lists fun _ => [] :=
  ⟨fun _ _ => rfl, fun _ => trivial, fun _ => List.nodup_nil, fun _ _ h => (nomatch h), fun _ _ h => (nomatch h)⟩

theorem freeSet_nil : freeSet (fun _ => []) = ∅ := by
  ext b
  exact iff_of_false List.not_mem_nil (Set.notMem_empty b)

theorem tiling_empty {x : Int} (h : x ≤ 0) : Tiling x (∅ : Set Block) :=
  ⟨fun _ hb => absurd hb (Set.notMem_empty _), fun _ hb => absurd hb (Set.notMem_empty _), fun y h₁ h₂ => by omega,
    fun _ hb => absurd hb (Set.notMem_empty _)⟩

theorem carve_fresh_heap {z : Memory} {s x : Int} (hs : 8 ≤ s) (hsize : x * s < 2147483648) :
    ∃ m free, carve (logMax + 1) (fresh z s x) 0 = .ok m ∧ m.Heap free ∅ := by
  have hf : (fresh z s x).Fits := ⟨hs, hsize⟩
  have hno : NoBuddies (∅ : Set Block) := fun _ _ _ h => absurd h (Set.notMem_empty _)
  by_cases hx : x < 0
  · refine ⟨fresh z s x, fun _ => [], carve_negative hx (Nat.le_refl _), ⟨hf, fresh_lists, ?_, fun _ h =>
      absurd h (Set.notMem_empty _), fun _ h => absurd h (Set.notMem_empty _), ?_⟩, ?_⟩
    · rw [freeSet_nil, Set.union_empty, Set.union_empty]
      exact tiling_empty hx.le
    · intro b _
      rw [freeSet_nil]
      exact Set.notMem_empty b
    · rw [freeSet_nil]
      exact hno
  · have hnb := hf.nBlock_lt
    refine carve_heap hf fresh_lists ?_ ?_ (fun _ _ => rfl) (Int.le_refl 0) (Int.not_lt.mp hx) ?_ (dvd_zero _) (Nat.le_refl _)
    · rw [freeSet_nil]
      exact tiling_empty (Int.le_refl 0)
    · rw [freeSet_nil]
      exact hno
    · show x < 0 + 2 ^ 31
      have : x < 268435456 := hnb
      omega

theorem memsys5Init_shape {z : Memory} {p : Nat} {r : Int} (h : memsys5Init z p r = .ok m) :
    8 ≤ m.szAtom ∧ (∃ c, m.szAtom = 2 ^ c) ∧
      carve (logMax + 1) (fresh z m.szAtom m.nBlock) 0 = .ok m ∧
      growAtom 33 (int32 (2 ^ memsys5Log r)) = .ok m.szAtom ∧
      m.nBlock = int32 (uint64 (int32 p) / uint64 (m.szAtom + 1)) := by
  obtain ⟨s, hs, h⟩ := bind_ok_iff.mp h
  obtain ⟨h₁, h₂⟩ := carve_shape h
  obtain ⟨h₃, h₄⟩ := growAtom_ok hs
  dsimp only at h₁ h₂
  rw [h₁]
  refine ⟨h₃, h₄, ?_, hs, h₂⟩
  rw [h₂]
  exact h

theorem memsys5Init_heap {z : Memory} {p : Nat} {r : Int} (h : memsys5Init z p r = .ok m)
    (hsize : m.nBlock * m.szAtom < 2147483648) : ∃ free, m.Heap free ∅ := by
  obtain ⟨h₁, _, hc, _⟩ := memsys5Init_shape h
  obtain ⟨m₁, free, he, hh⟩ := carve_fresh_heap (z := z) h₁ hsize
  cases hc.symm.trans he
  exact ⟨free, hh⟩

/-! ## `initialize_aptr` の呼び出し -/

theorem growAtom_mnReq : growAtom 33 (int32 (2 ^ memsys5Log mnReq)) = .ok 16 := by rfl

/-- `nByte` の負の値は `size_t` への変換で大きな数になるが、商を `int` に戻すと `pSize` の下位 32 ビットの商になる。 -/
theorem nBlock_eq (p : Nat) : int32 (uint64 (int32 p) / uint64 (16 + 1)) = (p % 4294967296 : Nat) / 17 := by
  have h : uint64 (16 + 1) = 17 := by decide
  obtain ⟨q, hq⟩ : ∃ q, p % 4294967296 = q := ⟨_, rfl⟩
  rw [h, hq]
  by_cases hlt : q < 2147483648
  · have h₁ : uint64 (int32 p) = q := by unfold int32 uint64; omega
    rw [h₁, int32_of_range (by omega) (by omega)]
  · -- 17 は 2 ^ 64 - 2 ^ 32 を割り切る。
    have h₁ : uint64 (int32 p) = q + 17 * 1085102592318504960 := by unfold int32 uint64; omega
    rw [h₁, Int.add_mul_ediv_left _ _ (by decide)]
    unfold int32
    omega

theorem memsys5Init_mnReq {z : Memory} {p : Nat} (h : memsys5Init z p mnReq = .ok m) :
    m.szAtom = 16 ∧ m.nBlock = (p % 4294967296 : Nat) / 17 := by
  obtain ⟨_, _, _, hg, hn⟩ := memsys5Init_shape h
  have hs : m.szAtom = 16 := Except.ok.inj (hg.symm.trans growAtom_mnReq)
  rw [hs, nBlock_eq] at hn
  exact ⟨hs, hn⟩

theorem memsys5Init_progress {z : Memory} {p : Nat} (hp : p % 4294967296 < 2281701376) :
    ∃ m free, memsys5Init z p mnReq = .ok m ∧ m.Heap free ∅ := by
  obtain ⟨m, free, hc, hh⟩ := carve_fresh_heap (z := z) (s := 16) (x := (p % 4294967296 : Nat) / 17) (by decide) (by omega)
  refine ⟨m, free, bind_ok_iff.mpr ⟨16, growAtom_mnReq, ?_⟩, hh⟩
  rw [nBlock_eq]
  exact hc

theorem check_of {p : Prop} [Decidable p] (h : p) : check p = .ok () := if_pos h

/-- 積 `nBlock * szAtom` があふれる配置では、`aCtrl` がプールの前に出る。 -/
theorem carve_overflow {z : Memory} {x : Int} (h₁ : 134217728 ≤ x) (h₂ : x < 268435456) :
    carve (logMax + 1) (fresh z 16 x) 0 = .error .outOfBounds := by
  have hskip {n : Nat} (hn : 28 ≤ n) (hn' : n ≤ 30) (hk : carve n (fresh z 16 x) 0 = .error .outOfBounds) :
      carve (n + 1) (fresh z 16 x) 0 = .error .outOfBounds := by
    have h₃ : (2 : Int) ^ 28 ≤ 2 ^ n := two_pow_le hn
    have h₄ : (2 : Int) ^ n ≤ 2 ^ 30 := two_pow_le hn'
    have h32 : int32 (0 + 2 ^ n) = 2 ^ n := by rw [Int.zero_add, int32_of_range (by omega) (by omega)]
    have hx : (fresh z 16 x).nBlock = x := rfl
    refine bind_error_iff.mpr (Or.inr ⟨(fresh z 16 x, 0), ?_, bind_error_iff.mpr (Or.inr ⟨(), check_of ?_, hk⟩)⟩)
    · unfold carveOne
      rw [h32, if_neg (by omega)]
    · rw [h32]
      omega
  have hstop : carve 28 (fresh z 16 x) 0 = .error .outOfBounds := by
    have h32 : int32 (0 + 2 ^ 27) = 134217728 := by rw [Int.zero_add, int32_of_range (by omega) (by omega)]; omega
    have hctrl : (fresh z 16 x).ctrlAddr 0 < 0 := by
      show int32 (x * 16) + 0 < 0
      unfold int32
      omega
    refine bind_error_iff.mpr (Or.inl ?_)
    unfold carveOne
    rw [h32, if_pos (show 134217728 ≤ (fresh z 16 x).nBlock from h₁)]
    refine bind_error_iff.mpr (Or.inl ?_)
    unfold onCtrl
    rw [if_neg fun h => absurd hctrl (Int.not_lt.mpr h.2.2)]
  exact hskip (by decide) (by decide) (hskip (by decide) (by decide) (hskip (by decide) (by decide) hstop))

theorem memsys5Init_fits {z : Memory} {p : Nat} (h : memsys5Init z p mnReq = .ok m) : m.Fits := by
  obtain ⟨hs, hn⟩ := memsys5Init_mnReq h
  obtain ⟨_, _, hc, _⟩ := memsys5Init_shape h
  refine ⟨by omega, ?_⟩
  rw [hs] at hc ⊢
  by_contra hge
  rw [carve_overflow (by omega) (by omega)] at hc
  cases hc

/-! ## 空きの並びをたどる -/

theorem walk_linked {l : List Int} {p : Int} {fuel : Nat} (h : Linked (-1) m.next m.prev p l) (hl : ∀ s ∈ l, 0 ≤ s)
    (hfuel : l.length ≤ fuel) : m.walk fuel (l.headD (-1)) = l := by
  induction l generalizing p fuel with
  | nil =>
      cases fuel with
      | zero => rfl
      | succ fuel => rfl
  | cons s l ih =>
      cases fuel with
      | zero => cases hfuel
      | succ fuel =>
          obtain ⟨_, h₁, h₂⟩ := h
          have hs := hl s List.mem_cons_self
          rw [List.headD_cons, Mem5Global.walk, if_neg (Int.not_lt.mpr hs), h₁]
          rw [ih h₂ (fun t ht => hl t (List.mem_cons_of_mem s ht)) (Nat.le_of_succ_le_succ hfuel)]

theorem length_le_of_range {l : List Int} {x : Int} (hnd : l.Nodup) (h : ∀ s ∈ l, 0 ≤ s ∧ s < x) : l.length ≤ x.toNat := by
  have hsub : l ⊆ (List.range x.toNat).map Int.ofNat := by
    intro s hs
    obtain ⟨h₁, h₂⟩ := h s hs
    exact List.mem_map.mpr ⟨s.toNat, List.mem_range.mpr (by omega), Int.toNat_of_nonneg h₁⟩
  have hlen := (List.subperm_of_subset hnd hsub).length_le
  rwa [List.length_map, List.length_range] at hlen

theorem Mem5Global.Lists.freeBlocks_eq (h : m.Lists free) : m.freeBlocks = freeSet free := by
  have hlist {k : Nat} (hk : k ≤ logMax) : m.freeList k = free k := by
    unfold Mem5Global.freeList
    rw [h.head k hk]
    exact walk_linked (h.linked k) (fun s hs => (h.bound k s hs).2.1)
      (length_le_of_range (h.nodup k) fun s hs => (h.bound k s hs).2)
  ext b
  constructor
  · rintro ⟨hk, hb⟩
    rw [hlist hk] at hb
    exact hb
  · intro hb
    have hk := (h.bound b.log b.start hb).1
    refine ⟨hk, ?_⟩
    rw [hlist hk]
    exact hb

end Eleos.Mem5
