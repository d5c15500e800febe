import Eleos.Mem5.Lemmas.Access
import Mathlib.Tactic.IntervalCases

/-!
# `memsys5Unlink` と `memsys5Link` の結果

二つの関数が成功したときの次の状態を、名前を付けた状態の変換で表す。
-/

namespace Eleos.Mem5

open Mem5Global

variable {m : Mem5Global} {i j : Int} {k : Nat}

/-- `unlinkPrev` のあとの状態。 -/
def Mem5Global.bypass (m : Mem5Global) (k : Nat) (next prev : Int) : Mem5Global :=
  if prev < 0 then m.setHead k next else m.setNext prev next

/-- `unlinkNext` のあとの状態。 -/
def Mem5Global.backTo (m : Mem5Global) (next prev : Int) : Mem5Global :=
  if 0 ≤ next then m.setPrev next prev else m

/-- `memsys5Unlink` のあとの状態。 -/
def Mem5Global.unlinked (m : Mem5Global) (i : Int) (k : Nat) : Mem5Global :=
  (m.bypass k (m.next i) (m.prev i)).backTo (m.next i) (m.prev i)

/-- `memsys5Link` のあとの状態。 -/
def Mem5Global.pushed (m : Mem5Global) (i : Int) (k : Nat) : Mem5Global :=
  (((m.setNext i (m.aiFreelist k)).setPrev i (-1)).backTo (m.aiFreelist k) i).setHead k i

/-- `memsys5Unlink` と `memsys5Link` の初めの検査を通る。 -/
structure Mem5Global.Sized (m : Mem5Global) (i : Int) (k : Nat) : Prop where
  mem : m.In i
  log : k ≤ logMax
  ctrl : (m.ctrl i &&& ctrlLogsize).toNat = k

theorem checkBlock_sized (hf : m.Fits) (h : m.Sized i k) : checkBlock m i k = .ok () := by
  have h₁ : 0 ≤ i ∧ i < m.nBlock := h.mem
  simp only [checkBlock, check, if_pos h₁, if_pos h.log, onCtrl_in hf h.mem, Bind.bind, Except.bind, if_pos h.ctrl]

theorem checkBlock_not_sized (hf : m.Fits) (h : ¬ m.Sized i k) : checkBlock m i k = .error .abort := by
  by_cases h₁ : 0 ≤ i ∧ i < m.nBlock
  · by_cases h₂ : k ≤ logMax
    · have h₃ : ¬ (m.ctrl i &&& ctrlLogsize).toNat = k := fun hc => h ⟨h₁, h₂, hc⟩
      simp only [checkBlock, check, if_pos h₁, if_pos h₂, onCtrl_in hf h₁, Bind.bind, Except.bind, if_neg h₃]
    · simp only [checkBlock, check, if_pos h₁, if_neg h₂, Bind.bind, Except.bind]
  · simp only [checkBlock, check, if_neg h₁, Bind.bind, Except.bind]

/-! ## 配置は変わらない -/

variable {next prev : Int}

@[simp] theorem Mem5Global.bypass_szAtom : (m.bypass k next prev).szAtom = m.szAtom := by
  unfold bypass; split <;> rfl

@[simp] theorem Mem5Global.bypass_nBlock : (m.bypass k next prev).nBlock = m.nBlock := by
  unfold bypass; split <;> rfl

@[simp] theorem Mem5Global.backTo_szAtom : (m.backTo next prev).szAtom = m.szAtom := by
  unfold backTo; split <;> rfl

@[simp] theorem Mem5Global.backTo_nBlock : (m.backTo next prev).nBlock = m.nBlock := by
  unfold backTo; split <;> rfl

@[simp] theorem Mem5Global.unlinked_szAtom : (m.unlinked i k).szAtom = m.szAtom := by
  rw [unlinked, backTo_szAtom, bypass_szAtom]

@[simp] theorem Mem5Global.unlinked_nBlock : (m.unlinked i k).nBlock = m.nBlock := by
  rw [unlinked, backTo_nBlock, bypass_nBlock]

@[simp] theorem Mem5Global.pushed_szAtom : (m.pushed i k).szAtom = m.szAtom := by
  rw [pushed, setHead_szAtom, backTo_szAtom, setPrev_szAtom, setNext_szAtom]

@[simp] theorem Mem5Global.pushed_nBlock : (m.pushed i k).nBlock = m.nBlock := by
  rw [pushed, setHead_nBlock, backTo_nBlock, setPrev_nBlock, setNext_nBlock]

theorem Mem5Global.Fits.of_eq {m' : Mem5Global} (h : m.Fits) (ha : m'.szAtom = m.szAtom)
    (hn : m'.nBlock = m.nBlock) : m'.Fits :=
  ⟨by rw [ha]; exact h.atom, by rw [ha, hn]; exact h.size⟩

/-! ## `memsys5Unlink` -/

theorem unlinkPrev_ok (hf : m.Fits) (hp : prev < m.nBlock) : unlinkPrev m k next prev = .ok (m.bypass k next prev) := by
  unfold unlinkPrev bypass
  split
  · rfl
  · exact onLink_in hf ⟨by omega, hp⟩

theorem unlinkNext_ok (hf : m.Fits) (hn : next < m.nBlock) : unlinkNext m next prev = .ok (m.backTo next prev) := by
  unfold unlinkNext backTo
  split
  · rename_i hpos
    exact onLink_in hf ⟨hpos, hn⟩
  · rfl

theorem memsys5Unlink_abort (hf : m.Fits) (h : ¬ m.Sized i k) : memsys5Unlink m i k = .error .abort := by
  rw [memsys5Unlink, checkBlock_not_sized hf h]
  rfl

theorem memsys5Unlink_ok (hf : m.Fits) (h : m.Sized i k) (hn : m.next i < m.nBlock) (hp : m.prev i < m.nBlock) :
    memsys5Unlink m i k = .ok (m.unlinked i k) := by
  have hfb : (m.bypass k (m.next i) (m.prev i)).Fits := hf.of_eq bypass_szAtom bypass_nBlock
  refine bind_ok_iff.mpr ⟨(), checkBlock_sized hf h, ?_⟩
  refine bind_ok_iff.mpr ⟨_, onLink_in hf h.mem, ?_⟩
  refine bind_ok_iff.mpr ⟨_, onLink_in hf h.mem, ?_⟩
  refine bind_ok_iff.mpr ⟨_, unlinkPrev_ok hf hp, ?_⟩
  exact unlinkNext_ok hfb (by rw [bypass_nBlock]; exact hn)

/-! ## `memsys5Link` -/

theorem linkHead_ok {x : Int} (hf : m.Fits) (hx : x < m.nBlock) : linkHead m i x = .ok (m.backTo x i) := by
  unfold linkHead backTo
  split
  · rename_i hpos
    exact bind_ok_iff.mpr ⟨(), check_ok_iff.mpr hx, onLink_in hf ⟨hpos, hx⟩⟩
  · rfl

theorem linkHead_abort {x : Int} (hi : m.In i) (hx : m.nBlock ≤ x) : linkHead m i x = .error .abort := by
  have h₁ := hi.1.trans_lt hi.2
  have h₂ : ¬ x < m.nBlock := by omega
  unfold linkHead check
  rw [if_pos (by omega), if_neg h₂]
  rfl

theorem memsys5Link_ok (hf : m.Fits) (h : m.Sized i k) (hx : m.aiFreelist k < m.nBlock) :
    memsys5Link m i k = .ok (m.pushed i k) := by
  refine bind_ok_iff.mpr ⟨(), checkBlock_sized hf h, ?_⟩
  refine bind_ok_iff.mpr ⟨_, onLink_in hf h.mem, ?_⟩
  refine bind_ok_iff.mpr ⟨_, onLink_in (hf.of_eq rfl rfl) h.mem, ?_⟩
  exact bind_ok_iff.mpr ⟨_, linkHead_ok (hf.of_eq rfl rfl) hx, rfl⟩

/-- `memsys5Link` は、検査で止まるか、成功する。 -/
theorem memsys5Link_cases (hf : m.Fits) : memsys5Link m i k = .error .abort ∨
    (m.Sized i k ∧ m.aiFreelist k < m.nBlock ∧ memsys5Link m i k = .ok (m.pushed i k)) := by
  by_cases h : m.Sized i k
  · by_cases hx : m.aiFreelist k < m.nBlock
    · exact Or.inr ⟨h, hx, memsys5Link_ok hf h hx⟩
    · left
      refine bind_error_iff.mpr (Or.inr ⟨(), checkBlock_sized hf h, ?_⟩)
      refine bind_error_iff.mpr (Or.inr ⟨_, onLink_in hf h.mem, ?_⟩)
      refine bind_error_iff.mpr (Or.inr ⟨_, onLink_in (hf.of_eq rfl rfl) h.mem, ?_⟩)
      exact bind_error_iff.mpr (Or.inl (linkHead_abort h.mem (Int.not_lt.mp hx)))
  · left
    rw [memsys5Link, checkBlock_not_sized hf h]
    rfl

/-! ## 書き換えたあとの記録 -/

theorem Mem5Global.bypass_ctrl (hf : m.Fits) (hp : prev < m.nBlock) (hj : m.In j) :
    (m.bypass k next prev).ctrl j = m.ctrl j := by
  unfold bypass
  split
  · rfl
  · exact ctrl_setNext hf ⟨by omega, hp⟩ hj

theorem Mem5Global.backTo_ctrl (hf : m.Fits) (hn : next < m.nBlock) (hj : m.In j) :
    (m.backTo next prev).ctrl j = m.ctrl j := by
  unfold backTo
  split
  · exact ctrl_setPrev hf ⟨by omega, hn⟩ hj
  · rfl

theorem Mem5Global.bypass_next (hf : m.Fits) (hp : prev < m.nBlock) (hj : m.In j) :
    (m.bypass k next prev).next j = if j = prev then int32 next else m.next j := by
  have h₁ := hj.1
  unfold bypass
  split
  · rw [if_neg (by omega), setHead_next]
  · exact next_setNext hf ⟨by omega, hp⟩ hj

theorem Mem5Global.bypass_prev (hf : m.Fits) (hp : prev < m.nBlock) (hj : m.In j) :
    (m.bypass k next prev).prev j = m.prev j := by
  unfold bypass
  split
  · rw [setHead_prev]
  · exact prev_setNext hf ⟨by omega, hp⟩ hj

theorem Mem5Global.backTo_next (hf : m.Fits) (hn : next < m.nBlock) (hj : m.In j) :
    (m.backTo next prev).next j = m.next j := by
  unfold backTo
  split
  · exact next_setPrev hf ⟨by omega, hn⟩ hj
  · rfl

theorem Mem5Global.backTo_prev (hf : m.Fits) (hn : next < m.nBlock) (hj : m.In j) :
    (m.backTo next prev).prev j = if j = next then int32 prev else m.prev j := by
  have h₁ := hj.1
  unfold backTo
  split
  · exact prev_setPrev hf ⟨by omega, hn⟩ hj
  · rw [if_neg (by omega)]

section unlinked

variable (hf : m.Fits) (hn : m.next i < m.nBlock) (hp : m.prev i < m.nBlock) (hj : m.In j)
include hf hn hp hj

theorem Mem5Global.unlinked_ctrl : (m.unlinked i k).ctrl j = m.ctrl j := by
  have hfb : (m.bypass k (m.next i) (m.prev i)).Fits := hf.of_eq bypass_szAtom bypass_nBlock
  have hjb : (m.bypass k (m.next i) (m.prev i)).In j := ⟨hj.1, by rw [bypass_nBlock]; exact hj.2⟩
  rw [unlinked, backTo_ctrl hfb (by rw [bypass_nBlock]; exact hn) hjb, bypass_ctrl hf hp hj]

theorem Mem5Global.unlinked_next : (m.unlinked i k).next j = if j = m.prev i then m.next i else m.next j := by
  have hfb : (m.bypass k (m.next i) (m.prev i)).Fits := hf.of_eq bypass_szAtom bypass_nBlock
  have hjb : (m.bypass k (m.next i) (m.prev i)).In j := ⟨hj.1, by rw [bypass_nBlock]; exact hj.2⟩
  rw [unlinked, backTo_next hfb (by rw [bypass_nBlock]; exact hn) hjb, bypass_next hf hp hj, int32_next]

theorem Mem5Global.unlinked_prev : (m.unlinked i k).prev j = if j = m.next i then m.prev i else m.prev j := by
  have hfb : (m.bypass k (m.next i) (m.prev i)).Fits := hf.of_eq bypass_szAtom bypass_nBlock
  have hjb : (m.bypass k (m.next i) (m.prev i)).In j := ⟨hj.1, by rw [bypass_nBlock]; exact hj.2⟩
  rw [unlinked, backTo_prev hfb (by rw [bypass_nBlock]; exact hn) hjb, bypass_prev hf hp hj, int32_prev]

end unlinked

/-! ## `aCtrl` の値 -/

theorem mark_logsize (h : k ≤ logMax) : ((ctrlFree ||| UInt8.ofNat k) &&& ctrlLogsize).toNat = k := by
  unfold logMax at h
  interval_cases k <;> rfl

end Eleos.Mem5
