import Eleos.Edger.Attr
import Eleos.Lib.Word

/-!
# 受理する属性
-/

namespace Eleos.Edger

variable {a b : PtrAttr} {l : List (String × AttrValue)}

theorem hasStrAttr_ok {s : Bool} (h : hasStrAttr a = .ok s) :
    s = (a.isstr || a.iswstr) ∧ ¬ (a.isstr = true ∧ a.iswstr = true) := by
  unfold hasStrAttr at h
  split at h
  · cases h
  · rename_i hn
    cases h
    exact ⟨rfl, by simpa using hn⟩

theorem checkInvalidAryAttr_ok (h : checkInvalidAryAttr a = .ok b) :
    b = a ∧ a.size = emptyPtrSize ∧ a.isptr = false ∧ (a.chkptr = true → a.direction ≠ .ptrNoDirection) := by
  unfold checkInvalidAryAttr at h
  split at h
  · cases h
  · rename_i hsize
    split at h
    · rename_i hptr
      split at h
      · cases h
      · rename_i hdir
        cases h
        exact ⟨rfl, by simpa using hsize, hptr, fun hc hd => hdir ⟨hc, hd⟩⟩
    · obtain ⟨s, _, h⟩ := bind_ok_iff.mp h
      split at h
      · cases h
      · cases h

theorem checkInvalidPtrSize_ok (h : checkInvalidPtrSize a = .ok b) :
    b = a ∧ (a.size.size = none ∨ a.size.sizefunc = none) ∧ (a.size ≠ emptyPtrSize → a.direction ≠ .ptrNoDirection) ∧
      (a.isstr = true ∨ a.iswstr = true → a.size = emptyPtrSize ∧ a.direction ≠ .ptrNoDirection) ∧
      ¬ (a.isstr = true ∧ a.iswstr = true) := by
  unfold checkInvalidPtrSize at h
  dsimp only at h
  split at h
  · cases h
  · rename_i hexcl
    have hexcl : a.size.size = none ∨ a.size.sizefunc = none := by
      by_contra hne
      exact hexcl ⟨fun h => hne (Or.inl h), fun h => hne (Or.inr h)⟩
    by_cases hsized : a.size = emptyPtrSize
    · simp only [hsized, ne_eq, not_true_eq_false, decide_false, Bool.false_eq_true, if_false] at h
      obtain ⟨_, ⟨⟩, h⟩ := bind_ok_iff.mp h
      rw [if_neg (by decide)] at h
      obtain ⟨s, hs, h⟩ := bind_ok_iff.mp h
      obtain ⟨rfl, hone⟩ := hasStrAttr_ok hs
      split at h
      · cases h
      · rename_i hdir
        cases h
        refine ⟨rfl, hexcl, fun hne => absurd hsized hne, fun hstr => ⟨hsized, fun hd => hdir ⟨?_, hd⟩⟩, hone⟩
        simpa using hstr
    · simp only [hsized, ne_eq, not_false_eq_true, decide_true, if_true] at h
      obtain ⟨s, hs, h⟩ := bind_ok_iff.mp h
      obtain ⟨rfl, hone⟩ := hasStrAttr_ok hs
      split at h
      · cases h
      · rename_i hstr
        obtain ⟨_, ⟨⟩, h⟩ := bind_ok_iff.mp h
        split at h
        · cases h
        · rename_i hdir
          cases h
          refine ⟨rfl, hexcl, fun _ hd => hdir ⟨rfl, hd⟩, fun h => absurd ?_ hstr, hone⟩
          simpa using h

theorem checkPtrDir_ok (h : checkPtrDir a = .ok b) :
    b = a ∧ (a.direction ≠ .ptrNoDirection → a.chkptr = true) ∧ (a.chkptr = true → a.direction ≠ .ptrNoDirection) ∧
      (a.direction = .ptrOut → a.isstr = false ∧ a.iswstr = false ∧ a.size.sizefunc = none) := by
  unfold checkPtrDir at h
  split at h
  · cases h
  · rename_i h₁
    split at h
    · cases h
    · rename_i h₂
      have hchk : a.direction ≠ .ptrNoDirection → a.chkptr = true := fun hd => by simpa using fun hc => h₁ ⟨hd, hc⟩
      have hdir : a.chkptr = true → a.direction ≠ .ptrNoDirection := fun hc hd => h₂ ⟨hd, hc⟩
      split at h
      · obtain ⟨s, hs, h⟩ := bind_ok_iff.mp h
        obtain ⟨rfl, _⟩ := hasStrAttr_ok hs
        split at h
        · cases h
        · rename_i hno
          cases h
          refine ⟨rfl, hchk, hdir, fun _ => ?_⟩
          simp only [Bool.or_eq_true, ne_eq, not_or, Bool.not_eq_true, not_not] at hno
          exact ⟨hno.1.1, hno.1.2, hno.2⟩
      · rename_i hout
        cases h
        exact ⟨rfl, hchk, hdir, fun ho => absurd ho hout⟩

/-- `string` と `wstring` は `isptr` を含む。 -/
theorem updateAttr_isptr {k : String} {v : AttrValue} (h : updateAttr k v a = .ok b)
    (ha : a.isstr = true ∨ a.iswstr = true → a.isptr = true) : b.isstr = true ∨ b.iswstr = true → b.isptr = true := by
  unfold updateAttr at h
  split at h
  case h_3 =>
    obtain ⟨_, _, h⟩ := bind_ok_iff.mp h
    cases h
    exact ha
  case h_10 =>
    obtain ⟨_, _, h⟩ := bind_ok_iff.mp h
    cases h
    exact ha
  case h_11 =>
    obtain ⟨_, _, h⟩ := bind_ok_iff.mp h
    cases h
    exact ha
  case h_12 => cases h
  all_goals
    cases h
    simp_all

theorem doGetPtrAttr_isptr (h : doGetPtrAttr l a = .ok b) (ha : a.isstr = true ∨ a.iswstr = true → a.isptr = true) :
    b.isstr = true ∨ b.iswstr = true → b.isptr = true := by
  induction l generalizing a with
  | nil =>
      cases h
      exact ha
  | cons kv l ih =>
      obtain ⟨c, hc, h⟩ := bind_ok_iff.mp h
      exact ih h (updateAttr_isptr hc ha)

/-- 受理した属性は決まりを満たす。 -/
theorem getPtrAttr_lawful (h : getPtrAttr l = .ok a) : a.Lawful := by
  obtain ⟨p, hp, h⟩ := bind_ok_iff.mp h
  have hptr := doGetPtrAttr_isptr hp (by simp [defaultPtrAttr])
  split at h
  · rename_i hary
    obtain ⟨rfl, hsize, hnot, hdir⟩ := checkInvalidAryAttr_ok h
    have hstr : ¬ (a.isstr = true ∨ a.iswstr = true) := fun hs => by simp [hptr hs] at hnot
    refine ⟨fun _ => Or.inr hary, hdir, fun hs => absurd hs hstr, fun hs => hstr (Or.inl hs.1),
      fun hs => absurd hsize hs, Or.inl ?_, fun hf => absurd ?_ hf⟩
    · rw [hsize, emptyPtrSize]
    · rw [hsize, emptyPtrSize]
  · rename_i hary
    have hary : p.isary = false := by simpa using hary
    obtain ⟨q, hq, hd⟩ := bind_ok_iff.mp h
    obtain ⟨rfl, hexcl, hsized, hstr, hone⟩ := checkInvalidPtrSize_ok hq
    obtain ⟨rfl, hchk, hdir, hout⟩ := checkPtrDir_ok hd
    -- 文字列と `sizefunc` は `in` とともに書く。
    have hin (hd : a.direction ≠ .ptrNoDirection) (ho : a.direction ≠ .ptrOut) :
        a.direction = .ptrIn ∨ a.direction = .ptrInOut := by
      cases hdir : a.direction with
      | ptrIn => exact Or.inl rfl
      | ptrInOut => exact Or.inr rfl
      | ptrOut => exact absurd hdir ho
      | ptrNoDirection => exact absurd hdir hd
    refine ⟨fun hd => Or.inl (hchk hd), hdir, ?_, hone, fun hs => ⟨hary, hsized hs⟩, hexcl, ?_⟩
    · intro hs
      refine ⟨hary, hin (hstr hs).2 ?_, (hstr hs).1⟩
      intro ho
      obtain ⟨h₁, h₂, _⟩ := hout ho
      simp [h₁, h₂] at hs
    · intro hf
      refine hin (hsized ?_) fun ho => hf (hout ho).2.2
      intro he
      rw [he] at hf
      exact hf rfl

theorem Parsed.lawful (h : Parsed a) : a.Lawful := by
  obtain ⟨l, p, hp, rfl | rfl⟩ := h
  · exact getPtrAttr_lawful hp
  · have hl := getPtrAttr_lawful hp
    exact ⟨hl.checked, hl.directed, hl.str, hl.one, hl.sized, hl.exclusive, hl.sizefunc⟩

end Eleos.Edger
