import Eleos.Face.Database

/-!
# 鍵の文字列

表は、NUL の手前までの文字列だけで鍵を見分ける。
-/

namespace Eleos.Face

variable {n : Nat} {a b key : List UInt8} {hash : UInt64}

theorem text_cons_zero : text (0 :: a) = [] := List.takeWhile_cons_of_neg (by decide)

theorem text_cons {c : UInt8} (hc : c ≠ 0) : text (c :: a) = c :: text a :=
  List.takeWhile_cons_of_pos (decide_eq_true hc)

theorem hashLoop_text : hashLoop hash (text a) = hashLoop hash a := by
  induction a generalizing hash with
  | nil => rfl
  | cons c a ih =>
      by_cases hc : c = 0
      · subst hc
        rw [text_cons_zero]
        rfl
      · rw [text_cons hc]
        unfold hashLoop
        rw [if_neg hc, if_neg hc]
        exact ih

theorem hashFunction_text : hashFunction (text a) n = hashFunction a n := by
  unfold hashFunction
  rw [hashLoop_text]

theorem text_cons_eq_nil_iff {c : UInt8} : text (c :: a) = [] ↔ c = 0 := by
  constructor
  · intro h
    by_contra hc
    rw [text_cons hc] at h
    cases h
  · rintro rfl
    exact text_cons_zero

theorem toNat_eq_zero_iff {c : UInt8} : c.toNat = 0 ↔ c = 0 := UInt8.toNat_inj (b := 0)

theorem strcmp_eq_zero_iff : strcmp a b = 0 ↔ text a = text b := by
  induction a generalizing b with
  | nil =>
      cases b with
      | nil => exact iff_of_true rfl rfl
      | cons d b =>
          rw [show text [] = [] from rfl, eq_comm (a := []), text_cons_eq_nil_iff, ← toNat_eq_zero_iff]
          unfold strcmp
          omega
  | cons c a ih =>
      cases b with
      | nil =>
          rw [show text [] = [] from rfl, text_cons_eq_nil_iff, ← toNat_eq_zero_iff]
          unfold strcmp
          omega
      | cons d b =>
          unfold strcmp
          by_cases hcd : c = d
          · subst hcd
            rw [if_neg (not_not.mpr rfl)]
            by_cases hc : c = 0
            · subst hc
              rw [if_pos rfl, text_cons_zero, text_cons_zero]
              exact iff_of_true rfl rfl
            · rw [if_neg hc, text_cons hc, text_cons hc, List.cons_inj_right]
              exact ih
          · rw [if_pos hcd]
            refine iff_of_false ?_ ?_
            · intro h
              exact hcd (UInt8.toNat_inj.mp (by omega))
            · intro h
              by_cases hc : c = 0
              · subst hc
                rw [text_cons_zero, eq_comm, text_cons_eq_nil_iff] at h
                exact hcd h.symm
              · by_cases hd : d = 0
                · subst hd
                  rw [text_cons_zero, text_cons_eq_nil_iff] at h
                  exact hcd h
                · rw [text_cons hc, text_cons hd] at h
                  exact hcd (List.cons.inj h).1

theorem strncpy_nil (n : Nat) : text (strncpy n []) = [] := by
  cases n with
  | zero => rfl
  | succ n => exact text_cons_zero

/-- 領域に収まる文字列は、そのまま写される。 -/
theorem text_strncpy (h : (text key).length ≤ n) : text (strncpy n key) = text key := by
  induction key generalizing n with
  | nil => exact strncpy_nil n
  | cons c key ih =>
      by_cases hc : c = 0
      · subst hc
        rw [text_cons_zero]
        cases n with
        | zero => rfl
        | succ n =>
            unfold strncpy
            rw [if_pos rfl, text_cons_zero]
      · rw [text_cons hc] at h ⊢
        cases n with
        | zero => cases h
        | succ n =>
            unfold strncpy
            rw [if_neg hc, text_cons hc, ih (Nat.le_of_succ_le_succ h)]

theorem text_length_lt (h : 0 ∈ key.take n) : (text key).length < n := by
  induction key generalizing n with
  | nil => simp at h
  | cons c key ih =>
      cases n with
      | zero => simp at h
      | succ n =>
          by_cases hc : c = 0
          · subst hc
            rw [text_cons_zero]
            exact Nat.succ_pos n
          · rw [text_cons hc, List.length_cons]
            rw [List.take_succ_cons] at h
            rcases List.mem_cons.mp h with rfl | hm
            · exact absurd rfl hc
            · exact Nat.succ_lt_succ (ih hm)

end Eleos.Face
