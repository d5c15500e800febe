import Eleos.Libc.Lemmas.Shims

/-!
# `strncmp_aptr` の繰り返し

C の `strncmp` と、二つの文字列が `strncmp_aptr` の見る範囲でどう違うかを定め、繰り返しの結果を述べる。
-/

namespace Eleos.Libc

open Pager

variable {cfg : Config} {G : Gcm} {s : Sys} {a : Aptr} {d n : Nat} {y r : Int} {us ws : List UInt8} {u w : UInt8}

/-! ## C の `strncmp` -/

/-- C の `strncmp`。符号なしの値で比べる。違いにも NUL にも出会わずに並びが尽きる呼び出しには、値がない。 -/
def strncmp : Nat → List UInt8 → List UInt8 → Option Int
  | 0, _, _ => some 0
  | n + 1, u :: us, w :: ws =>
      if u ≠ w then some (u.toNat - w.toNat) else if u = 0 then some 0 else strncmp n us ws
  | _ + 1, _, _ => none

/-- `n` 文字目より前で、等しくて NUL でない文字が続いたあとに、`P` を満たす文字の組が並ぶ。 -/
def Meets (P : UInt8 → UInt8 → Prop) (n : Nat) (us ws : List UInt8) : Prop :=
  ∃ k < n, (∀ j < k, us[j]? = ws[j]? ∧ us[j]? ≠ some 0) ∧ ∃ u w, us[k]? = some u ∧ ws[k]? = some w ∧ P u w

/-- 違いと NUL の前に、128 以上の等しい文字がある。 -/
def MeetsHigh : Nat → List UInt8 → List UInt8 → Prop := Meets fun u w => u = w ∧ 128 ≤ u.toNat

/-- 最初の違いで、前の文字列の文字が大きい。 -/
def MeetsGreater : Nat → List UInt8 → List UInt8 → Prop := Meets fun u w => w < u

theorem not_meets_zero {P : UInt8 → UInt8 → Prop} : ¬ Meets P 0 us ws := by
  rintro ⟨k, hk, -⟩
  exact Nat.not_lt_zero k hk

theorem meets_cons {P : UInt8 → UInt8 → Prop} :
    Meets P (n + 1) (u :: us) (w :: ws) ↔ P u w ∨ u = w ∧ u ≠ 0 ∧ Meets P n us ws := by
  constructor
  · rintro ⟨k, hk, hpre, u', w', hu, hw, hP⟩
    cases k with
    | zero =>
        cases hu
        cases hw
        exact Or.inl hP
    | succ k =>
        obtain ⟨heq, hne⟩ := hpre 0 (Nat.succ_pos k)
        refine Or.inr ⟨Option.some.inj heq, fun h => hne (congrArg some h), k, by omega, ?_, u', w', hu, hw, hP⟩
        exact fun j hj => hpre (j + 1) (by omega)
  · rintro (hP | ⟨rfl, hne, k, hk, hpre, u', w', hu, hw, hP⟩)
    · exact ⟨0, Nat.succ_pos n, fun j hj => absurd hj (Nat.not_lt_zero j), u, w, rfl, rfl, hP⟩
    · refine ⟨k + 1, by omega, ?_, u', w', hu, hw, hP⟩
      intro j hj
      cases j with
      | zero => exact ⟨rfl, fun h => hne (Option.some.inj h)⟩
      | succ j => exact hpre j (by omega)

theorem strncmp_pos_iff (h : strncmp n us ws = some r) : 0 < r ↔ MeetsGreater n us ws := by
  induction n generalizing us ws with
  | zero =>
      cases h
      exact iff_of_false (Int.lt_irrefl 0) not_meets_zero
  | succ n ih =>
      cases us with
      | nil => cases h
      | cons u us =>
          cases ws with
          | nil => cases h
          | cons w ws =>
              unfold MeetsGreater
              rw [meets_cons, UInt8.lt_iff_toNat_lt]
              simp only [strncmp] at h
              split at h
              next hne =>
                cases h
                have := fun heq => hne (UInt8.toNat_inj.mp heq)
                constructor
                · exact fun hlt => Or.inl (by omega)
                · rintro (hlt | ⟨heq, -⟩)
                  · omega
                  · exact absurd heq hne
              next heq =>
                obtain rfl := not_not.mp heq
                split at h
                next h0 =>
                  cases h
                  simp [h0]
                next h0 =>
                  rw [ih h]
                  simp [h0, MeetsGreater]

/-! ## 繰り返し -/

theorem signedChar_low (h : w.toNat < 128) : signedChar w = w.toNat := if_pos h

theorem signedChar_high (h : 128 ≤ w.toNat) : signedChar w = w.toNat - 256 := if_neg (by omega)

/-- 符号付きの値との比較で等しいとされるのは、等しくて 128 より小さいときに限る。 -/
theorem signedChar_eq_iff : (u.toNat : Int) = signedChar w ↔ u = w ∧ w.toNat < 128 := by
  have hu := u.toNat_lt
  rcases Nat.lt_or_ge w.toNat 128 with hw | hw
  · rw [signedChar_low hw, Int.ofNat_inj, UInt8.toNat_inj]
    exact ⟨fun h => ⟨h, hw⟩, fun h => h.1⟩
  · rw [signedChar_high hw]
    have := w.toNat_lt
    constructor
    · omega
    · exact fun h => absurd h.2 (by omega)

theorem sign_differ (hne : u ≠ w) : (if u < w then (-1 : Int) else 1).sign = ((u.toNat : Int) - w.toNat).sign := by
  have hne' : u.toNat ≠ w.toNat := fun h => hne (UInt8.toNat_inj.mp h)
  rcases Nat.lt_or_gt_of_ne hne' with hlt | hgt
  · rw [if_pos (UInt8.lt_iff_toNat_lt.mpr hlt), Int.sign_eq_neg_one_of_neg (a := u.toNat - w.toNat) (by omega)]
    rfl
  · rw [if_neg (fun h => by have := UInt8.lt_iff_toNat_lt.mp h; omega),
      Int.sign_eq_one_of_pos (a := u.toNat - w.toNat) (by omega)]
    rfl

/-- 値のある呼び出しでは、128 以上の等しい文字に出会えば 1、そうでなければ C の `strncmp` と同じ符号になる。 -/
structure Judged (n : Nat) (us ws : List UInt8) (r r' : Int) : Prop where
  high : MeetsHigh n us ws → r' = 1
  low : ¬ MeetsHigh n us ws → r'.sign = r.sign

theorem Judged.differ (h : u ≠ w) :
    Judged (n + 1) (u :: us) (w :: ws) (u.toNat - w.toNat) (if u < w then -1 else 1) := by
  refine ⟨fun hm => ?_, fun _ => sign_differ h⟩
  rcases meets_cons.mp hm with ⟨heq, -⟩ | ⟨heq, -⟩
  · exact absurd heq h
  · exact absurd heq h

theorem Judged.high_head {r : Int} (h : 128 ≤ u.toNat) :
    Judged (n + 1) (u :: us) (u :: ws) r (if u < u then -1 else 1) := by
  refine ⟨fun _ => if_neg (UInt8.lt_irrefl u), fun hm => ?_⟩
  exact absurd (meets_cons.mpr (Or.inl ⟨rfl, h⟩)) hm

theorem Judged.nul : Judged (n + 1) (0 :: us) (0 :: ws) 0 0 := by
  refine ⟨fun hm => ?_, fun _ => rfl⟩
  rcases meets_cons.mp hm with ⟨-, h⟩ | ⟨-, h, -⟩
  · exact absurd h (by decide)
  · exact absurd rfl h

theorem Judged.same {r r' : Int} (h0 : u ≠ 0) (hlow : u.toNat < 128) (h : Judged n us ws r r') :
    Judged (n + 1) (u :: us) (u :: ws) r r' := by
  have hiff : MeetsHigh (n + 1) (u :: us) (u :: ws) ↔ MeetsHigh n us ws := by
    refine meets_cons.trans ⟨?_, fun hm => Or.inr ⟨rfl, h0, hm⟩⟩
    rintro (⟨-, hhigh⟩ | ⟨-, -, hm⟩)
    · omega
    · exact hm
  exact ⟨fun hm => h.high (hiff.mp hm), fun hm => h.low fun hm' => hm (hiff.mpr hm')⟩

theorem strncmpLoop_ok (hG : G.Correct) (h : Ready cfg G s) (hc : Cursor s d a y) (hp : InPool cfg y us.length)
    (hr : ∀ k < us.length, RoomFor cfg (s.set d none) [(y + (k : Nat)) / pageSize])
    (hus : ∀ k < us.length, lastWrite s.state.trace (y + (k : Nat)) = us[k]?) (hrun : strncmp n us ws = some r) :
    ∃ s' r' a', strncmpLoop cfg G d n s ws = .ok (s', r') ∧
      Passed cfg G s d (Range y us.length) (lastWrite s.state.trace) s' a' ∧ Judged n us ws r r' := by
  induction n generalizing s a y us ws with
  | zero =>
      cases hrun
      exact ⟨s, 0, a, rfl, .refl h hc.get, fun hm => absurd hm not_meets_zero, fun _ => rfl⟩
  | succ n ih =>
      cases us with
      | nil => cases hrun
      | cons u us =>
          cases ws with
          | nil => cases hrun
          | cons w ws =>
              simp only [strncmp] at hrun
              obtain ⟨s₁, v, i, hget, h₁, hv⟩ := get_ok hG h hc hp.head (head_room hr)
              have hu := hus 0 (Nat.succ_pos _)
              rw [Nat.cast_zero, Int.add_zero] at hu
              obtain rfl : v = u := hv u hu
              by_cases heq : (v.toNat : Int) = signedChar w
              · obtain ⟨rfl, hlow⟩ := signedChar_eq_iff.mp heq
                rw [if_neg (not_not.mpr rfl)] at hrun
                by_cases h0 : v = 0
                · rw [if_pos h0] at hrun
                  cases hrun
                  subst h0
                  refine ⟨s₁, 0, _, bind_ok_iff.mpr ⟨_, hget, ?_⟩, h₁.mono fun _ => Range.head, .nul⟩
                  dsimp only
                  rw [if_neg (not_not.mpr heq), if_pos rfl]
                · rw [if_neg h0] at hrun
                  obtain ⟨s₂, hadv, h₂, hc₂⟩ := advance_ok hG hc h₁
                  obtain ⟨s₃, r₃, a₃, hloop, h₃, hj⟩ := ih h₂.ready hc₂ hp.tail
                    (h₂.rest hr (by omega) (by rw [List.length_cons]; push_cast; omega))
                    (fun k hk => by
                      rw [h₂.last, Int.add_assoc, Int.add_comm 1]
                      exact hus (k + 1) (Nat.succ_lt_succ hk)) hrun
                  rw [h₂.last] at h₃
                  refine ⟨s₃, r₃, a₃, bind_ok_iff.mpr ⟨_, hget, ?_⟩,
                    (h₂.mono fun _ => Range.head).trans (h₃.mono fun _ => Range.tail), hj.same h0 hlow⟩
                  dsimp only
                  rw [if_neg (not_not.mpr heq), if_neg h0]
                  exact bind_ok_iff.mpr ⟨s₂, hadv, hloop⟩
              · refine ⟨s₁, if v < w then -1 else 1, _, bind_ok_iff.mpr ⟨_, hget, ?_⟩, h₁.mono fun _ => Range.head, ?_⟩
                · dsimp only
                  rw [if_pos heq]
                · by_cases hvw : v = w
                  · subst hvw
                    exact .high_head (Nat.le_of_not_lt fun hlow => heq (signedChar_eq_iff.mpr ⟨rfl, hlow⟩))
                  · rw [if_pos hvw] at hrun
                    cases hrun
                    exact .differ hvw

theorem strncmpAptr_ok (hG : G.Correct) (h : Ready cfg G s) (hr : OneRange cfg s y us.length)
    (hus : ∀ k < us.length, lastWrite s.state.trace (y + (k : Nat)) = us[k]?) (hrun : strncmp n us ws = some r) :
    ∃ s' r', strncmpAptr cfg G s y ws n = .ok (s', r') ∧
      Returned cfg G s (Range y us.length) (lastWrite s.state.trace) s' ∧ Judged n us ws r r' := by
  obtain ⟨a, hcons, hr₁, -, hc₁⟩ := construct_ok (n := n) hG h ⟨hr.range.lo, hr.start⟩
  obtain ⟨s₂, r₂, a₂, hloop, hpass, hj⟩ := strncmpLoop_ok hG hr₁ hc₁ hr.range
    (fun k hk => room_push (hr.room k hk) rfl) hus hrun
  have haptrs : (Sys.push s a).aptrs = s.aptrs ++ [some a] := rfl
  obtain ⟨s₃, hdestroy, hret⟩ := hpass.leave hG haptrs rfl
  exact ⟨s₃, r₂, bind_ok_iff.mpr ⟨_, hcons, bind_ok_iff.mpr ⟨_, hloop, bind_ok_iff.mpr ⟨s₃, hdestroy, rfl⟩⟩⟩, hret, hj⟩

end Eleos.Libc
