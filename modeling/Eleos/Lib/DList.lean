import Mathlib.Data.List.Basic

/-!
# 双方向の並び

`next` と `prev` の二つの関数で表した双方向の並びを、要素の並びと対応させる。終わりは `nil` で表す。
-/

namespace Eleos

variable {α : Type} {nil p i : α} {next prev next' prev' : α → α} {l l₁ l₂ : List α}

/-- `l` の要素は、`p` の後ろに順につながっている。 -/
def Linked (nil : α) (next prev : α → α) : α → List α → Prop
  | _, [] => True
  | p, i :: l => prev i = p ∧ next i = l.headD nil ∧ Linked nil next prev i l

theorem Linked.congr (h : Linked nil next prev p l) (hn : ∀ j ∈ l, next' j = next j) (hp : ∀ j ∈ l, prev' j = prev j) :
    Linked nil next' prev' p l := by
  induction l generalizing p with
  | nil => trivial
  | cons i l ih =>
      obtain ⟨h₁, h₂, h₃⟩ := h
      refine ⟨?_, ?_, ?_⟩
      · rw [hp i List.mem_cons_self, h₁]
      · rw [hn i List.mem_cons_self, h₂]
      · exact ih h₃ (fun j hj => hn j (List.mem_cons_of_mem i hj)) fun j hj => hp j (List.mem_cons_of_mem i hj)

theorem Linked.next_eq (l₁ : List α) (h : Linked nil next prev p (l₁ ++ i :: l₂)) : next i = l₂.headD nil := by
  induction l₁ generalizing p with
  | nil => exact h.2.1
  | cons j l₁ ih => exact ih h.2.2

theorem Linked.prev_mem (h : Linked nil next prev p (l₁ ++ i :: l₂)) (hne : l₁ ≠ []) : prev i ∈ l₁ := by
  induction l₁ generalizing p with
  | nil => exact absurd rfl hne
  | cons j l₁ ih =>
      cases l₁ with
      | nil =>
          rw [List.mem_singleton]
          exact h.2.2.1
      | cons j' l₁ => exact List.mem_cons_of_mem j (ih h.2.2 (by simp))

theorem Linked.next_mem (h : Linked nil next prev p (l₁ ++ i :: l₂)) : next i = nil ∨ next i ∈ l₂ := by
  rw [h.next_eq l₁]
  cases l₂ with
  | nil => exact Or.inl rfl
  | cons j l₂ => exact Or.inr List.mem_cons_self

variable [DecidableEq α]

/-- `i` の前後をつないで、`i` を外す。 -/
theorem Linked.remove (h : Linked nil next prev p (l₁ ++ i :: l₂)) (hnd : (p :: (l₁ ++ i :: l₂)).Nodup)
    (hnil : nil ∉ l₁ ++ i :: l₂) (hn : ∀ j ∈ l₁ ++ l₂, next' j = if j = prev i then next i else next j)
    (hp : ∀ j ∈ l₁ ++ l₂, prev' j = if j = next i then prev i else prev j) :
    Linked nil next' prev' p (l₁ ++ l₂) := by
  induction l₁ generalizing p with
  | nil =>
      obtain ⟨h₁, h₂, h₃⟩ := h
      obtain ⟨hpi, hnd⟩ := List.nodup_cons.mp hnd
      have hn' : ∀ j ∈ l₂, next' j = next j := by
        intro j hj
        rw [hn j hj, if_neg]
        rintro rfl
        rw [h₁] at hj
        exact hpi (List.mem_cons_of_mem i hj)
      cases l₂ with
      | nil => trivial
      | cons j l₂ =>
          obtain ⟨h₄, h₅, h₆⟩ := h₃
          have hne : next i = j := h₂
          refine ⟨?_, ?_, ?_⟩
          · rw [hp j List.mem_cons_self, if_pos hne.symm, h₁]
          · rw [hn' j List.mem_cons_self, h₅]
          · refine h₆.congr (fun j' hj' => hn' j' (List.mem_cons_of_mem j hj')) ?_
            intro j' hj'
            rw [hp j' (List.mem_cons_of_mem j hj'), if_neg]
            rw [hne]
            rintro rfl
            exact (List.nodup_cons.mp (List.nodup_cons.mp hnd).2).1 hj'
  | cons a l₁ ih =>
      obtain ⟨h₁, h₂, h₃⟩ := h
      obtain ⟨hpi, hnd⟩ := List.nodup_cons.mp hnd
      rw [List.cons_append, List.nodup_cons] at hnd
      have hanext : next i ≠ a := by
        intro heq
        rcases h₃.next_mem with h | h
        · exact hnil (by rw [← h, heq]; exact List.mem_cons_self)
        · rw [heq] at h
          exact hnd.1 (by simp [h])
      refine ⟨?_, ?_, ?_⟩
      · rw [hp a List.mem_cons_self, if_neg (Ne.symm hanext), h₁]
      · rw [hn a List.mem_cons_self]
        cases l₁ with
        | nil =>
            rw [if_pos h₃.1.symm, h₃.next_eq []]
            rfl
        | cons b l₁ =>
            have hb : prev i ∈ b :: l₁ := h₃.prev_mem (by simp)
            rw [if_neg, h₂]
            · rfl
            · rintro rfl
              exact hnd.1 (List.mem_append_left _ hb)
      · exact ih h₃ (List.nodup_cons.mpr hnd) (fun h => hnil (List.mem_cons_of_mem a h))
          (fun j hj => hn j (List.mem_cons_of_mem a hj)) fun j hj => hp j (List.mem_cons_of_mem a hj)

/-- `i` を先頭に加える。 -/
theorem Linked.push (h : Linked nil next prev nil l) (hnd : (i :: l).Nodup) (hni : next' i = l.headD nil)
    (hpi : prev' i = nil) (hn : ∀ j ∈ l, next' j = next j)
    (hp : ∀ j ∈ l, prev' j = if j = l.headD nil then i else prev j) : Linked nil next' prev' nil (i :: l) := by
  refine ⟨hpi, hni, ?_⟩
  cases l with
  | nil => trivial
  | cons j l =>
      obtain ⟨_, h₂, h₃⟩ := h
      refine ⟨?_, ?_, ?_⟩
      · rw [hp j List.mem_cons_self]
        exact if_pos rfl
      · rw [hn j List.mem_cons_self, h₂]
      · refine h₃.congr (fun j' hj' => hn j' (List.mem_cons_of_mem j hj')) ?_
        intro j' hj'
        rw [hp j' (List.mem_cons_of_mem j hj'), if_neg]
        rintro rfl
        exact (List.nodup_cons.mp (List.nodup_cons.mp hnd).2).1 hj'

end Eleos
