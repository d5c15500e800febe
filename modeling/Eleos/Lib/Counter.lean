import Eleos.Lib.Word
import Mathlib.Data.Finset.Prod
import Mathlib.Logic.Function.Basic

/-!
# 計数器の配列

`size` 個の計数器を、鍵の列に従って一つずつ増やす。
-/

namespace Eleos

variable {α β : Type} {size : Nat} {h : Nat → Int} {ks : List Int}

/-- 位置 `k` の計数器を増やす。 -/
def bump (size : Nat) (h : Nat → Int) (k : Int) : Except Stop (Nat → Int) :=
  if 0 ≤ k ∧ k < size then .ok (Function.update h k.toNat (h k.toNat + 1)) else .error .outOfBounds

/-- 鍵が範囲にあれば、どの計数器にも、その位置を指す鍵の個数が加わる。 -/
theorem foldlM_bump (hks : ∀ k ∈ ks, 0 ≤ k ∧ k < size) :
    ks.foldlM (bump size) h = .ok fun i => h i + ks.count (i : Int) := by
  induction ks generalizing h with
  | nil => simp [pure, Except.pure]
  | cons k ks ih =>
      have hk := hks k List.mem_cons_self
      rw [List.foldlM_cons, bump, if_pos hk]
      refine (ih fun k' hk' => hks k' (List.mem_cons_of_mem _ hk')).trans (congrArg Except.ok ?_)
      funext i
      by_cases hi : (i : Int) = k
      · subst hi
        rw [Int.toNat_natCast, Function.update_self, List.count_cons_self]
        push_cast
        omega
      · have hne : i ≠ k.toNat := by omega
        rw [Function.update_of_ne hne, List.count_cons_of_ne (Ne.symm hi)]

/-- 入れ子の繰り返しは、一つの並びの繰り返しである。 -/
theorem foldlM_flatMap {ε σ : Type} {f : σ → β → Except ε σ} {g : α → List β} (l : List α) (s : σ) :
    (l.flatMap g).foldlM f s = l.foldlM (fun s x => (g x).foldlM f s) s := by
  induction l generalizing s with
  | nil => rfl
  | cons x l ih =>
      rw [List.flatMap_cons, List.foldlM_append, List.foldlM_cons]
      exact congrArg _ (funext ih)

/-- 要素ごとに一つの計数器を増やす繰り返しは、鍵の列に従って増やす。 -/
theorem foldlM_step {step : (Nat → Int) → α → Except Stop (Nat → Int)} {key : α → Int} {l : List α}
    (hstep : ∀ x ∈ l, ∀ h, step h x = bump size h (key x)) : l.foldlM step h = (l.map key).foldlM (bump size) h := by
  induction l generalizing h with
  | nil => rfl
  | cons x l ih =>
      rw [List.foldlM_cons, List.map_cons, List.foldlM_cons, hstep x List.mem_cons_self]
      exact congrArg _ (funext fun _ => ih fun y hy => hstep y (List.mem_cons_of_mem _ hy))

/-- 重なりのない並びの中の、鍵が `k` である要素の個数。 -/
theorem count_map_eq_card [DecidableEq α] {f : α → Int} {l : List α} (hl : l.Nodup) (k : Int) :
    (l.map f).count k = (l.toFinset.filter fun x => f x = k).card := by
  rw [List.count_eq_countP, List.countP_map, List.countP_eq_length_filter,
    ← List.toFinset_card_of_nodup (hl.filter _), List.toFinset_filter]
  congr 1
  ext x
  simp

end Eleos
