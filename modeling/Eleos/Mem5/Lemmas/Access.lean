import Eleos.Mem5.Alloc
import Mathlib.Tactic.Linarith

/-!
# プールの中の記録の読み書き

`Mem5Link` と `aCtrl` の書き込みは、書いた番号の記録だけを変える。以後の証明はバイトを見ない。
-/

namespace Eleos.Mem5

open Mem5Global

variable {m : Mem5Global} {i j v : Int} {k : Nat} {c : UInt8}

/-- 記録の番地の計算が 32 ビットに収まる配置。 -/
structure Mem5Global.Fits (m : Mem5Global) : Prop where
  atom : 8 ≤ m.szAtom
  size : m.nBlock * m.szAtom < 2147483648

/-- ブロックの番号。 -/
def Mem5Global.In (m : Mem5Global) (i : Int) : Prop := 0 ≤ i ∧ i < m.nBlock

namespace Mem5Global

theorem Fits.nBlock_lt (h : m.Fits) : m.nBlock < 268435456 := by
  have h₁ := h.atom
  have h₂ := h.size
  by_contra hge
  nlinarith

/-! ## 番地 -/

theorem Fits.mul_lt (h : m.Fits) (hij : i < j) : i * m.szAtom + m.szAtom ≤ j * m.szAtom := by
  have h₁ := h.atom
  nlinarith

theorem Fits.mul_nonneg (h : m.Fits) (hi : 0 ≤ i) : 0 ≤ i * m.szAtom := by
  have h₁ := h.atom
  exact Int.mul_nonneg hi (by omega)

theorem Fits.linkAddr (h : m.Fits) (hi : m.In i) : m.linkAddr i = i * m.szAtom := by
  have h₁ := h.mul_nonneg hi.1
  have h₂ := h.mul_lt hi.2
  have h₃ := h.size
  have h₄ := h.atom
  exact int32_of_range (by omega) (by omega)

theorem Fits.ctrlAddr (h : m.Fits) (hi : m.In i) : m.ctrlAddr i = m.nBlock * m.szAtom + i := by
  have h₁ := h.mul_nonneg (hi.1.trans hi.2.le)
  have h₂ := h.size
  unfold Mem5Global.ctrlAddr
  rw [int32_of_range (by omega) h₂]

theorem onLink_in {α : Type} {x : α} (h : m.Fits) (hi : m.In i) : m.onLink i x = .ok x := by
  unfold onLink
  rw [if_pos]
  exact ⟨hi.1, hi.2, by rw [h.linkAddr hi]; exact h.mul_nonneg hi.1⟩

theorem onCtrl_in {α : Type} {x : α} (h : m.Fits) (hi : m.In i) : m.onCtrl i x = .ok x := by
  unfold onCtrl
  rw [if_pos]
  have h₁ := h.mul_nonneg (hi.1.trans hi.2.le)
  have h₂ := hi.1
  exact ⟨hi.1, hi.2, by rw [h.ctrlAddr hi]; omega⟩

/-! ## 書き込みのあとの値 -/

@[simp] theorem int32_next : int32 (m.next i) = m.next i :=
  int32_of_range (load32_range _ _).1 (load32_range _ _).2

@[simp] theorem int32_prev : int32 (m.prev i) = m.prev i :=
  int32_of_range (load32_range _ _).1 (load32_range _ _).2

@[simp] theorem setNext_szAtom : (m.setNext i v).szAtom = m.szAtom := rfl
@[simp] theorem setNext_nBlock : (m.setNext i v).nBlock = m.nBlock := rfl
@[simp] theorem setNext_aiFreelist : (m.setNext i v).aiFreelist = m.aiFreelist := rfl
@[simp] theorem setPrev_szAtom : (m.setPrev i v).szAtom = m.szAtom := rfl
@[simp] theorem setPrev_nBlock : (m.setPrev i v).nBlock = m.nBlock := rfl
@[simp] theorem setPrev_aiFreelist : (m.setPrev i v).aiFreelist = m.aiFreelist := rfl
@[simp] theorem setCtrl_szAtom : (m.setCtrl i c).szAtom = m.szAtom := rfl
@[simp] theorem setCtrl_nBlock : (m.setCtrl i c).nBlock = m.nBlock := rfl
@[simp] theorem setCtrl_linkAddr : (m.setCtrl i c).linkAddr = m.linkAddr := rfl
@[simp] theorem setCtrl_aiFreelist : (m.setCtrl i c).aiFreelist = m.aiFreelist := rfl
@[simp] theorem setHead_szAtom : (m.setHead k v).szAtom = m.szAtom := rfl
@[simp] theorem setHead_nBlock : (m.setHead k v).nBlock = m.nBlock := rfl
@[simp] theorem setHead_next : (m.setHead k v).next = m.next := rfl
@[simp] theorem setHead_prev : (m.setHead k v).prev = m.prev := rfl
@[simp] theorem setHead_ctrl : (m.setHead k v).ctrl = m.ctrl := rfl

theorem Fits.apart (h : m.Fits) (hi : m.In i) (hj : m.In j) (hne : i ≠ j) :
    (m.linkAddr i).toNat + 8 ≤ (m.linkAddr j).toNat ∨ (m.linkAddr j).toNat + 8 ≤ (m.linkAddr i).toNat := by
  have h₁ := h.mul_nonneg hi.1
  have h₂ := h.mul_nonneg hj.1
  have h₃ := h.atom
  rw [h.linkAddr hi, h.linkAddr hj]
  rcases Int.lt_or_gt_of_ne hne with hlt | hlt
  · have := h.mul_lt hlt
    omega
  · have := h.mul_lt hlt
    omega

theorem Fits.link_before_ctrl (h : m.Fits) (hi : m.In i) (hj : m.In j) :
    (m.linkAddr i).toNat + 8 ≤ (m.ctrlAddr j).toNat := by
  have h₁ := h.mul_nonneg hi.1
  have h₂ := h.mul_lt hi.2
  have h₃ := h.atom
  have h₄ := hj.1
  rw [h.linkAddr hi, h.ctrlAddr hj]
  omega

theorem next_setNext (h : m.Fits) (hi : m.In i) (hj : m.In j) :
    (m.setNext i v).next j = if j = i then int32 v else m.next j := by
  by_cases hij : j = i
  · subst hij
    rw [if_pos rfl]
    exact load32_store32_self
  · have := h.apart hi hj (Ne.symm hij)
    rw [if_neg hij]
    exact load32_store32_of_apart (a := (m.linkAddr i).toNat) (b := (m.linkAddr j).toNat) (by omega)

theorem prev_setNext (h : m.Fits) (hi : m.In i) (hj : m.In j) : (m.setNext i v).prev j = m.prev j := by
  by_cases hij : j = i
  · subst hij
    exact load32_store32_of_apart (a := (m.linkAddr j).toNat) (b := (m.linkAddr j).toNat + 4) (by omega)
  · have := h.apart hi hj (Ne.symm hij)
    exact load32_store32_of_apart (a := (m.linkAddr i).toNat) (b := (m.linkAddr j).toNat + 4) (by omega)

theorem ctrl_setNext (h : m.Fits) (hi : m.In i) (hj : m.In j) : (m.setNext i v).ctrl j = m.ctrl j := by
  have := h.link_before_ctrl hi hj
  exact store32_of_apart (a := (m.linkAddr i).toNat) (x := (m.ctrlAddr j).toNat) (by omega)

theorem next_setPrev (h : m.Fits) (hi : m.In i) (hj : m.In j) : (m.setPrev i v).next j = m.next j := by
  by_cases hij : j = i
  · subst hij
    exact load32_store32_of_apart (a := (m.linkAddr j).toNat + 4) (b := (m.linkAddr j).toNat) (by omega)
  · have := h.apart hi hj (Ne.symm hij)
    exact load32_store32_of_apart (a := (m.linkAddr i).toNat + 4) (b := (m.linkAddr j).toNat) (by omega)

theorem prev_setPrev (h : m.Fits) (hi : m.In i) (hj : m.In j) :
    (m.setPrev i v).prev j = if j = i then int32 v else m.prev j := by
  by_cases hij : j = i
  · subst hij
    rw [if_pos rfl]
    exact load32_store32_self
  · have := h.apart hi hj (Ne.symm hij)
    rw [if_neg hij]
    exact load32_store32_of_apart (a := (m.linkAddr i).toNat + 4) (b := (m.linkAddr j).toNat + 4) (by omega)

theorem ctrl_setPrev (h : m.Fits) (hi : m.In i) (hj : m.In j) : (m.setPrev i v).ctrl j = m.ctrl j := by
  have := h.link_before_ctrl hi hj
  exact store32_of_apart (a := (m.linkAddr i).toNat + 4) (x := (m.ctrlAddr j).toNat) (by omega)

theorem next_setCtrl (h : m.Fits) (hi : m.In i) (hj : m.In j) : (m.setCtrl i c).next j = m.next j := by
  have := h.link_before_ctrl hj hi
  apply load32_congr
  intro x hx₁ hx₂
  rw [setCtrl_linkAddr] at hx₁ hx₂
  exact Function.update_of_ne (by omega) _ _

theorem prev_setCtrl (h : m.Fits) (hi : m.In i) (hj : m.In j) : (m.setCtrl i c).prev j = m.prev j := by
  have := h.link_before_ctrl hj hi
  apply load32_congr
  intro x hx₁ hx₂
  rw [setCtrl_linkAddr] at hx₁ hx₂
  exact Function.update_of_ne (by omega) _ _

theorem ctrl_setCtrl (h : m.Fits) (hi : m.In i) (hj : m.In j) :
    (m.setCtrl i c).ctrl j = if j = i then c else m.ctrl j := by
  by_cases hij : j = i
  · subst hij
    rw [if_pos rfl]
    exact Function.update_self _ _ _
  · have h₁ := h.mul_nonneg (hi.1.trans hi.2.le)
    have h₂ := hi.1
    have h₃ := hj.1
    rw [if_neg hij]
    apply Function.update_of_ne
    show (m.ctrlAddr j).toNat ≠ (m.ctrlAddr i).toNat
    rw [h.ctrlAddr hj, h.ctrlAddr hi]
    omega

/-! ## 書き込まないバイト -/

/-- ブロック `i` の `Mem5Link` のバイト。 -/
def LinkByte (m : Mem5Global) (i : Int) (x : Nat) : Prop := i * m.szAtom ≤ x ∧ (x : Int) < i * m.szAtom + 8

/-- `aCtrl[i]` のバイト。 -/
def CtrlByte (m : Mem5Global) (i : Int) (x : Nat) : Prop := (x : Int) = m.nBlock * m.szAtom + i

theorem zPool_setNext {x : Nat} (h : m.Fits) (hi : m.In i) (hx : ¬ m.LinkByte i x) :
    (m.setNext i v).zPool x = m.zPool x := by
  have h₁ := h.linkAddr hi
  have h₂ := h.mul_nonneg hi.1
  unfold LinkByte at hx
  exact store32_of_apart (by omega)

theorem zPool_setPrev {x : Nat} (h : m.Fits) (hi : m.In i) (hx : ¬ m.LinkByte i x) :
    (m.setPrev i v).zPool x = m.zPool x := by
  have h₁ := h.linkAddr hi
  have h₂ := h.mul_nonneg hi.1
  unfold LinkByte at hx
  exact store32_of_apart (by omega)

theorem zPool_setCtrl {x : Nat} (h : m.Fits) (hi : m.In i) (hx : ¬ m.CtrlByte i x) :
    (m.setCtrl i c).zPool x = m.zPool x := by
  have h₁ := h.ctrlAddr hi
  have h₂ := h.mul_nonneg (hi.1.trans hi.2.le)
  have h₃ := hi.1
  unfold CtrlByte at hx
  exact Function.update_of_ne (by omega) _ _

end Mem5Global

end Eleos.Mem5
