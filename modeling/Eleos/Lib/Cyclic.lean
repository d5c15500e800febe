import Mathlib.Algebra.Group.Fin.Basic
import Mathlib.Algebra.Group.Units.Equiv
import Mathlib.Data.Fintype.Card
import Mathlib.Tactic.Abel

/-!
# 環状の語

`n` 個の真偽値を環に並べた語。真の個数も、隣と異なる位置の個数も、語を回しても裏返しても変わらない。
-/

namespace Eleos

variable {n : Nat}

/-- 真の個数。 -/
def ones (w : Fin n → Bool) : Nat := (Finset.univ.filter fun k => w k).card

theorem ones_comp (w : Fin n → Bool) (e : Fin n ≃ Fin n) : ones (fun k => w (e k)) = ones w :=
  Finset.card_equiv e fun k => by simp

theorem ones_le (w : Fin n → Bool) : ones w ≤ n :=
  (Finset.card_le_univ _).trans (Fintype.card_fin n).le

section

variable [NeZero n]

/-- 次の位置と異なる位置の個数。 -/
def changes (w : Fin n → Bool) : Nat := (Finset.univ.filter fun k => w k ≠ w (k + 1)).card

theorem ones_shift (w : Fin n → Bool) (j : Fin n) : ones (fun k => w (k + j)) = ones w :=
  ones_comp w (Equiv.addRight j)

theorem ones_flip (w : Fin n → Bool) (j : Fin n) : ones (fun k => w (j - k)) = ones w :=
  ones_comp w (Equiv.subLeft j)

theorem changes_shift (w : Fin n → Bool) (j : Fin n) : changes (fun k => w (k + j)) = changes w :=
  Finset.card_equiv (Equiv.addRight j) fun k => by simp [add_right_comm]

theorem changes_flip (w : Fin n → Bool) (j : Fin n) : changes (fun k => w (j - k)) = changes w := by
  refine Finset.card_equiv (Equiv.subLeft (j - 1)) fun k => ?_
  have h₁ : j - 1 - k = j - (k + 1) := by abel
  have h₂ : j - (k + 1) + 1 = j - k := by abel
  simp [h₁, h₂, eq_comm]

end

end Eleos
