import Mathlib.Algebra.BigOperators.Fin
import Mathlib.Algebra.BigOperators.Group.Finset.Piecewise
import Mathlib.Algebra.Order.BigOperators.Group.Finset

/-!
# 参加者についての総和

`n` 人の参加者の状態に重み `f` を付けた総和。一人の状態が変わったときの総和の変化を述べる。
-/

namespace Eleos

variable {n : Nat} {α : Type} {f g : α → Nat} {s : Fin n → α} {t : Fin n} {x : α}

def tally (f : α → Nat) (s : Fin n → α) : Nat := ∑ t, f (s t)

theorem tally_update : tally f (Function.update s t x) + f (s t) = tally f s + f x := by
  have h := Finset.sum_update_of_mem (Finset.mem_univ t) (fun u => f (s u)) (f x)
  have hcomp : (fun u => f (Function.update s t x u)) = Function.update (fun u => f (s u)) t (f x) := by
    funext u
    by_cases hu : u = t
    · subst hu
      simp
    · simp [hu]
  have hsplit := Finset.sum_eq_add_sum_sdiff_singleton_of_mem (Finset.mem_univ t) fun u => f (s u)
  unfold tally
  rw [hcomp, h, hsplit]
  omega

theorem le_tally (t : Fin n) : f (s t) ≤ tally f s :=
  Finset.single_le_sum (f := fun u => f (s u)) (fun _ _ => Nat.zero_le _) (Finset.mem_univ t)

/-- 二人の重みは総和を超えない。 -/
theorem add_le_tally {u : Fin n} (h : t ≠ u) : f (s t) + f (s u) ≤ tally f s := by
  have hsub := Finset.sum_le_sum_of_subset (f := fun v => f (s v)) (Finset.subset_univ {t, u})
  rwa [Finset.sum_pair h] at hsub

theorem tally_mono (h : ∀ u, f (s u) ≤ g (s u)) : tally f s ≤ tally g s :=
  Finset.sum_le_sum fun u _ => h u

theorem tally_le (h : ∀ u, f (s u) ≤ 1) : tally f s ≤ n := by
  have := Finset.sum_le_card_nsmul Finset.univ (fun u => f (s u)) 1 fun u _ => h u
  simpa [tally] using this

end Eleos
