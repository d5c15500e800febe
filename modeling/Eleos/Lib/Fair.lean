import Mathlib.Algebra.Order.Group.Nat
import Mathlib.Order.Basic

/-!
# 公平な実行

無限の実行と、動作ごとの弱い公平さを定め、ある条件からいつか別の条件に至ることの規則を置く。
-/

namespace Eleos

variable {σ ι : Type} {run : Nat → σ} {act : σ → σ → Prop} {P Q R : σ → Prop}

/-- ある時点から先、動作 `act` をいつも行えるならば、いつか行う。 -/
def WeaklyFair (run : Nat → σ) (act : σ → σ → Prop) : Prop :=
  ∀ i, (∀ j, i ≤ j → ∃ s, act (run j) s) → ∃ j, i ≤ j ∧ act (run j) (run (j + 1))

/-- `P` が成り立てば、その時点かその先で `Q` が成り立つ。 -/
def LeadsTo (run : Nat → σ) (P Q : σ → Prop) : Prop := ∀ i, P (run i) → ∃ j, i ≤ j ∧ Q (run j)

namespace LeadsTo

theorem of_imp (h : ∀ i, P (run i) → Q (run i)) : LeadsTo run P Q := fun i hi => ⟨i, le_rfl, h i hi⟩

theorem trans (h : LeadsTo run P Q) (h' : LeadsTo run Q R) : LeadsTo run P R := by
  intro i hi
  obtain ⟨j, hij, hj⟩ := h i hi
  obtain ⟨k, hjk, hk⟩ := h' j hj
  exact ⟨k, hij.trans hjk, hk⟩

theorem or (h : LeadsTo run P R) (h' : LeadsTo run Q R) : LeadsTo run (fun s => P s ∨ Q s) R := by
  intro i hi
  cases hi with
  | inl hi => exact h i hi
  | inr hi => exact h' i hi

theorem ex {P : ι → σ → Prop} (h : ∀ x, LeadsTo run (P x) Q) : LeadsTo run (fun s => ∃ x, P x s) Q := by
  intro i hi
  obtain ⟨x, hx⟩ := hi
  exact h x i hx

/-- `Q` に至るまで `P` が続き、その間いつも行える公平な動作が `Q` に至らせる。 -/
theorem ensures (hfair : WeaklyFair run act) (hstep : ∀ i, P (run i) → P (run (i + 1)) ∨ Q (run (i + 1)))
    (henabled : ∀ i, P (run i) → ∃ s, act (run i) s)
    (hact : ∀ i, P (run i) → act (run i) (run (i + 1)) → Q (run (i + 1))) : LeadsTo run P Q := by
  intro i hi
  by_contra hnever
  have hP : ∀ j, i ≤ j → P (run j) := by
    intro j hij
    induction j, hij using Nat.le_induction with
    | base => exact hi
    | succ j hij ih => exact (hstep j ih).resolve_right fun hq => hnever ⟨j + 1, by omega, hq⟩
  obtain ⟨j, hij, hj⟩ := hfair i fun j hij => henabled j (hP j hij)
  exact hnever ⟨j + 1, by omega, hact j (hP j hij) hj⟩

/-- 自然数の順位が下がりつづける間に、`Q` に至る。 -/
theorem rank (μ : σ → Nat)
    (h : ∀ k, LeadsTo run (fun s => P s ∧ μ s = k) fun s => Q s ∨ P s ∧ μ s < k) : LeadsTo run P Q := by
  have hk : ∀ k i, P (run i) → μ (run i) = k → ∃ j, i ≤ j ∧ Q (run j) := by
    intro k
    induction k using Nat.strong_induction_on with
    | h k ih =>
        intro i hi hμ
        obtain ⟨j, hij, hj⟩ := h k i ⟨hi, hμ⟩
        cases hj with
        | inl hq => exact ⟨j, hij, hq⟩
        | inr hlt =>
            obtain ⟨l, hjl, hl⟩ := ih _ hlt.2 j hlt.1 rfl
            exact ⟨l, hij.trans hjl, hl⟩
  exact fun i hi => hk _ i hi rfl

end LeadsTo

end Eleos
