import Eleos.Lib.Dyadic
import Eleos.Mem5.Lemmas.Links

/-!
# 割り当てと解放の繰り返し
-/

namespace Eleos.Mem5

open Mem5Global

variable {m m₁ : Mem5Global} {b o lo hi : Int} {k n : Nat}

/-! ## 割り当て -/

theorem roundLogsize_ok {n s : Int} {fuel a r : Nat} (hn : n ≤ 1073741824) (hs : 0 < s)
    (h : roundLogsize n fuel (s * 2 ^ a) a = .ok r) : a ≤ r ∧ n ≤ s * 2 ^ r ∧ (a < r → s * 2 ^ (r - 1) < n) := by
  induction fuel generalizing a with
  | zero => cases h
  | succ fuel ih =>
      unfold roundLogsize at h
      by_cases hlt : s * 2 ^ a < n
      · have h₁ : 0 < s * 2 ^ a := Int.mul_pos hs (two_pow_pos a)
        have h₂ : int32 (s * 2 ^ a * 2) = s * 2 ^ (a + 1) := by
          rw [int32_of_range (by omega) (by omega), pow_succ, mul_assoc]
        rw [if_pos hlt, h₂] at h
        obtain ⟨h₃, h₄, h₅⟩ := ih h
        refine ⟨by omega, h₄, fun _ => ?_⟩
        by_cases hr : a + 1 < r
        · exact h₅ hr
        · have hra : r - 1 = a := by omega
          rw [hra]
          exact hlt
      · rw [if_neg hlt] at h
        cases h
        exact ⟨Nat.le_refl _, Int.not_lt.mp hlt, fun h => absurd h (Nat.lt_irrefl _)⟩

theorem findBin_spec (f : Nat → Int) (fuel b : Nat) : b ≤ findBin f fuel b ∧ findBin f fuel b ≤ b + fuel ∧
    (∀ j, b ≤ j → j < findBin f fuel b → f j < 0) ∧ (findBin f fuel b < b + fuel → 0 ≤ f (findBin f fuel b)) := by
  induction fuel generalizing b with
  | zero => exact ⟨Nat.le_refl _, Nat.le_refl _, fun j h₁ h₂ => absurd h₂ (Nat.not_lt.mpr h₁), fun h =>
      absurd h (Nat.lt_irrefl _)⟩
  | succ fuel ih =>
      unfold findBin
      by_cases hb : f b < 0
      · rw [if_pos hb]
        obtain ⟨h₁, h₂, h₃, h₄⟩ := ih (b + 1)
        refine ⟨by omega, by omega, fun j h₅ h₆ => ?_, fun h => h₄ (by omega)⟩
        by_cases hj : j = b
        · rw [hj]
          exact hb
        · exact h₃ j (by omega) h₆
      · rw [if_neg hb]
        exact ⟨Nat.le_refl _, by omega, fun j h₁ h₂ => absurd h₂ (Nat.not_lt.mpr h₁), fun _ => Int.not_lt.mp hb⟩

theorem roundLogsize_error {n s : Int} {fuel a : Nat} {e : Stop} (h : roundLogsize n fuel s a = .error e) :
    e = .spin := by
  induction fuel generalizing a s with
  | zero => cases h; rfl
  | succ fuel ih =>
      unfold roundLogsize at h
      split at h
      · exact ih h
      · cases h

/-- 並びの先頭のブロックを取り、分けて返すまで。 -/
def takeHead (m : Mem5Global) (k iBin : Nat) : Except Stop (Mem5Global × Option Int) := do
  let i := m.aiFreelist iBin
  let m ← memsys5Unlink m i iBin
  let m ← split i k iBin m
  let m ← m.onCtrl i (m.setCtrl i (UInt8.ofNat k))
  .ok (m, some (m.linkAddr i))

theorem memsys5MallocUnsafe_eq {n : Int} {k : Nat} (hpos : 0 < n) (hn : n ≤ 1073741824)
    (hk : roundLogsize n 33 m.szAtom 0 = .ok k) : memsys5MallocUnsafe m n =
      if logMax < findBin m.aiFreelist (logMax + 1 - k) k then .ok (m, none)
      else takeHead m k (findBin m.aiFreelist (logMax + 1 - k) k) := by
  have h₁ : ¬ (0x40000000 : Int) < n := by omega
  unfold memsys5MallocUnsafe check
  rw [if_pos hpos, if_neg h₁, hk]
  rfl

/-! ## 解放 -/

/-- 相手は、プールの終わりを越えるか、プールの中の隣の位置にある。 -/
theorem buddy_cases (hf : m.Fits) (hb : m.In b) (hk : k < logMax) :
    (buddy m b k (2 ^ k) = .ok none ∧ b / 2 ^ k % 2 ≠ 1 ∧ m.nBlock ≤ b + 2 ^ k) ∨
    ∃ o, buddy m b k (2 ^ k) = .ok (some o) ∧ m.In o ∧
      o = (if b / 2 ^ k % 2 = 1 then b - 2 ^ k else b + 2 ^ k) := by
  have h₁ := two_pow_pos k
  have h₂ : (2 : Int) ^ k ≤ 2 ^ 29 := two_pow_le (Nat.le_of_lt_succ hk)
  have h₃ := hf.nBlock_lt
  obtain ⟨h₄, h₅⟩ := hb
  unfold buddy check
  by_cases hodd : b / 2 ^ k % 2 = 1
  · right
    have hge : 2 ^ k ≤ b := by
      by_contra hlt
      rw [Int.ediv_eq_zero_of_lt h₄ (by omega)] at hodd
      cases hodd
    have h32 : int32 (b - 2 ^ k) = b - 2 ^ k := int32_of_range (by omega) (by omega)
    rw [if_pos hodd, h32, if_pos (by omega), if_pos hodd]
    exact ⟨_, rfl, ⟨by omega, by omega⟩, rfl⟩
  · have h32 : int32 (b + 2 ^ k) = b + 2 ^ k := int32_of_range (by omega) (by omega)
    rw [if_neg hodd, h32, if_neg hodd]
    by_cases hend : m.nBlock ≤ b + 2 ^ k
    · left
      exact ⟨if_pos hend, hodd, hend⟩
    · right
      rw [if_neg hend]
      exact ⟨_, rfl, ⟨by omega, by omega⟩, rfl⟩

theorem uint32_two_pow (h : k < logMax) : uint32 ((2 : Int) ^ k * 2) = 2 ^ (k + 1) := by
  have h₁ := two_pow_pos k
  have h₂ : (2 : Int) ^ k ≤ 2 ^ 29 := two_pow_le (Nat.le_of_lt_succ h)
  unfold uint32
  rw [Int.emod_eq_of_lt (by omega) (by omega), pow_succ]

/-- 空いている相手とつなぎ合わせて、次に進む。 -/
theorem merge_absorb (hf : m.Fits) (hk : k < logMax) (he : buddy m b k (2 ^ k) = .ok (some o)) (ho : m.In o)
    (hmark : m.ctrl o = ctrlFree ||| UInt8.ofNat k) (hun : memsys5Unlink m o k = .ok m₁) (hf₁ : m₁.Fits)
    (hpair : (if o < b then (o, b) else (b, o)) = (lo, hi)) (hlo : m₁.In lo) (hhi : m₁.In hi) :
    merge (n + 1) m b k (2 ^ k) = merge n ((m₁.setCtrl lo (ctrlFree ||| UInt8.ofNat (k + 1))).setCtrl hi 0)
      lo (k + 1) (2 ^ (k + 1)) := by
  have hhi' : (m₁.setCtrl lo (ctrlFree ||| UInt8.ofNat (k + 1))).In hi := hhi
  rw [merge, he]
  simp only [Bind.bind, Except.bind, onCtrl_in hf ho, hmark, ne_eq, not_true_eq_false, ↓reduceIte, hun, hpair,
    onCtrl_in hf₁ hlo, uint32_two_pow hk]
  rw [onCtrl_in (hf₁.of_eq setCtrl_szAtom setCtrl_nBlock) hhi']

/-- 相手がプールの外にあるか、空いていなければ、そこで終わる。 -/
theorem merge_stop (hf : m.Fits) (h : buddy m b k (2 ^ k) = .ok none ∨
      buddy m b k (2 ^ k) = .ok (some o) ∧ m.In o ∧ m.ctrl o ≠ ctrlFree ||| UInt8.ofNat k) :
    merge (n + 1) m b k (2 ^ k) = .ok (m, b, k) := by
  rcases h with he | ⟨he, ho, hmark⟩
  · rw [merge, he]
    rfl
  · rw [merge, he]
    simp only [Bind.bind, Except.bind, onCtrl_in hf ho, ne_eq, hmark, not_false_eq_true, ↓reduceIte]

/-- 解放するブロックの両端の印を付けた状態。 -/
def Mem5Global.marked (m : Mem5Global) (b : Int) (k : Nat) : Mem5Global :=
  ((m.setCtrl b (m.ctrl b ||| ctrlFree)).setCtrl (b + 2 ^ k - 1)
    ((m.setCtrl b (m.ctrl b ||| ctrlFree)).ctrl (b + 2 ^ k - 1) ||| ctrlFree)).setCtrl b (ctrlFree ||| UInt8.ofNat k)

/-- `memsys5FreeUnsafe` の初めの検査を通るポインタ。 -/
structure Mem5Global.Freeable (m : Mem5Global) (p b : Int) (k : Nat) : Prop where
  index : int32 (p.tdiv m.szAtom) = b
  mem : m.In b
  exact : p.tmod m.szAtom = 0
  used : m.ctrl b &&& ctrlFree = 0
  log : (m.ctrl b &&& ctrlLogsize).toNat = k
  last : b + 2 ^ k ≤ m.nBlock

theorem logsize_lt (c : UInt8) : (c &&& ctrlLogsize).toNat < 32 := by
  rw [UInt8.toNat_and]
  exact Nat.lt_succ_of_le Nat.and_le_right

theorem Mem5Global.Fits.log_lt (hf : m.Fits) (hb : 0 ≤ b) (h : b + 2 ^ k ≤ m.nBlock) : k < 28 := by
  by_contra hk
  have h₁ := hf.nBlock_lt
  have h₂ : (2 : Int) ^ 28 ≤ 2 ^ k := two_pow_le (Nat.not_lt.mp hk)
  omega

theorem memsys5FreeUnsafe_eq {p : Int} (hf : m.Fits) (h : m.Freeable p b k) : memsys5FreeUnsafe m p =
    merge (logMax - k) (m.marked b k) b k (2 ^ k) >>= fun r => memsys5Link r.1 r.2.1 r.2.2 := by
  have hpos := two_pow_pos k
  have hlt := hf.nBlock_lt
  have hb := h.mem.1
  have hlast := h.last
  have hsize : uint32 ((2 : Int) ^ k) = 2 ^ k := Int.emod_eq_of_lt (by omega) (by omega)
  have hlast' : uint32 (b + 2 ^ k - 1) = b + 2 ^ k - 1 := Int.emod_eq_of_lt (by omega) (by omega)
  have hn : uint32 m.nBlock = m.nBlock := Int.emod_eq_of_lt (by omega) (by omega)
  have hin : m.In (b + 2 ^ k - 1) := ⟨by omega, by omega⟩
  have hmem : 0 ≤ b ∧ b < m.nBlock := h.mem
  have hlt' : b + 2 ^ k - 1 < m.nBlock := hin.2
  simp only [memsys5FreeUnsafe, h.index, check, if_pos hmem, if_pos h.exact, onCtrl_in hf h.mem, if_pos h.used, h.log,
    hsize, hlast', hn, if_pos hlt', Bind.bind, Except.bind]
  rw [onCtrl_in (hf.of_eq setCtrl_szAtom setCtrl_nBlock) (by exact hin)]
  dsimp only
  rw [onCtrl_in (hf.of_eq (by simp) (by simp)) (by exact h.mem)]
  rfl

theorem memsys5FreeUnsafe_abort {p : Int} (hf : m.Fits) (h : ∀ b k, ¬ m.Freeable p b k) :
    memsys5FreeUnsafe m p = .error .abort := by
  obtain ⟨b, hb⟩ : ∃ b, int32 (p.tdiv m.szAtom) = b := ⟨_, rfl⟩
  obtain ⟨k, hk⟩ : ∃ k, (m.ctrl b &&& ctrlLogsize).toNat = k := ⟨_, rfl⟩
  by_cases h₁ : 0 ≤ b ∧ b < m.nBlock
  · by_cases h₂ : p.tmod m.szAtom = 0
    · by_cases h₃ : m.ctrl b &&& ctrlFree = 0
      · have hpos := two_pow_pos k
        have hlt := hf.nBlock_lt
        have hk31 : (2 : Int) ^ k ≤ 2 ^ 31 := two_pow_le (by have := logsize_lt (m.ctrl b); omega)
        have hsize : uint32 ((2 : Int) ^ k) = 2 ^ k := Int.emod_eq_of_lt (by omega) (by omega)
        have hlast' : uint32 (b + 2 ^ k - 1) = b + 2 ^ k - 1 := Int.emod_eq_of_lt (by omega) (by omega)
        have hn : uint32 m.nBlock = m.nBlock := Int.emod_eq_of_lt (by omega) (by omega)
        have h₄ : ¬ b + 2 ^ k - 1 < m.nBlock := fun hl => h b k ⟨hb, h₁, h₂, h₃, hk, by omega⟩
        simp only [memsys5FreeUnsafe, hb, check, if_pos h₁, if_pos h₂, onCtrl_in hf h₁, if_pos h₃, hk, hsize, hlast',
          hn, if_neg h₄, Bind.bind, Except.bind]
      · simp only [memsys5FreeUnsafe, hb, check, if_pos h₁, if_pos h₂, onCtrl_in hf h₁, if_neg h₃, Bind.bind,
          Except.bind]
    · simp only [memsys5FreeUnsafe, hb, check, if_pos h₁, if_neg h₂, Bind.bind, Except.bind]
  · simp only [memsys5FreeUnsafe, hb, check, if_neg h₁, Bind.bind, Except.bind]

end Eleos.Mem5
