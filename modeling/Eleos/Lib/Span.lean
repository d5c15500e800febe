import Mathlib.Data.Nat.Init
import Mathlib.Tactic.SimpRw

/-!
# メモリの一続きの区間

番地からバイトへの関数の、長さ `n` の区間の読み書き。
-/

namespace Eleos

variable {n : Nat} {m : Nat → UInt8} {a b x : Nat} {c : Fin n → UInt8}

/-- 番地 `a` からの `n` バイト。 -/
def readSpan (n : Nat) (m : Nat → UInt8) (a : Nat) : Fin n → UInt8 := fun o => m (a + o)

/-- 番地 `a` からの `n` バイトを `c` にする。 -/
def writeSpan (m : Nat → UInt8) (a : Nat) (c : Fin n → UInt8) : Nat → UInt8 :=
  fun x => if h : a ≤ x ∧ x - a < n then c ⟨x - a, h.2⟩ else m x

theorem writeSpan_of_apart (h : x < a ∨ a + n ≤ x) : writeSpan m a c x = m x := by
  unfold writeSpan
  rw [dif_neg]
  omega

theorem writeSpan_self (o : Fin n) : writeSpan m a c (a + o) = c o := by
  have h : a ≤ a + (o : Nat) ∧ a + (o : Nat) - a < n := ⟨Nat.le_add_right a o, by have := o.isLt; omega⟩
  unfold writeSpan
  rw [dif_pos h]
  congr 1
  apply Fin.ext
  simp

theorem readSpan_writeSpan_self : readSpan n (writeSpan m a c) a = c := by
  funext o
  exact writeSpan_self o

theorem readSpan_writeSpan_of_apart {k : Nat} (h : b + k ≤ a ∨ a + n ≤ b) :
    readSpan k (writeSpan m a c) b = readSpan k m b := by
  funext o
  have := o.isLt
  exact writeSpan_of_apart (by omega)

end Eleos
