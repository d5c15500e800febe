import Eleos.Pager.Bias
import Eleos.Pager.Lemmas.Pinning

/-!
# 偏りの追跡

どの実行でも、`Aptr` の `offset` は履歴の `addr` と `home` の差に、32 ビットの折り返しを除いて等しい。
-/

namespace Eleos.Pager

variable {cfg : Config} {G : Gcm} {s s' : Sys} {a a' : Aptr} {t : Trail} {l : List (Option Trail)} {d : Nat}

/-- `Aptr` と履歴の一致。 -/
structure Aptr.Follows (a : Aptr) (t : Trail) : Prop where
  base : 0 ≤ a.basePageIndex
  linked : a.prmPtr.isSome = t.linked
  offset : a.offset = int32 (t.addr - t.home * pageSize)

/-- オブジェクトと履歴の一致。空の `Aptr` に履歴はない。 -/
def Traced : Option Aptr → Option Trail → Prop
  | none, o => o = none
  | some a, none => a.basePageIndex < 0
  | some a, some t => a.Follows t

structure Sys.Tracks (s : Sys) (l : List (Option Trail)) : Prop where
  length : s.aptrs.length = l.length
  traced : ∀ d : Nat, Traced s.aptrs[d]?.join l[d]?.join

/-! ## `Aptr` の操作 -/

theorem isValid_iff_not_away (h : a.Follows t) : isValid a.offset = true ↔ ¬ t.Away := by
  rw [isValid_iff, h.offset]
  unfold Trail.Away int32 pageSize
  omega

theorem construct_follows {x : Int} {n : Nat} (h : Aptr.construct x n = .ok a) : a.Follows (Trail.construct x) := by
  unfold Aptr.construct at h
  dsimp only at h
  split at h
  · cases h
    refine ⟨by assumption, rfl, ?_⟩
    unfold Trail.construct int32 pageSize
    dsimp only
    omega
  · cases h

theorem Aptr.Follows.doCopy (h : a.Follows t) : a.doCopy.Follows t.doCopy := by
  refine ⟨h.base, rfl, ?_⟩
  unfold Aptr.doCopy Trail.doCopy
  dsimp only
  rw [h.offset, int32_add_left]
  congr 1
  ring

theorem Aptr.Follows.move {n : Nat} {k : Int} (h : a.Follows t) : (a.move n k).Follows (t.move n k) := by
  refine ⟨h.base, h.linked, ?_⟩
  unfold Aptr.move Trail.move
  dsimp only
  have hmul : uint64 (uint64 k * n) = k * n % 18446744073709551616 := by
    unfold uint64
    rw [Int.mul_emod, Int.emod_emod, ← Int.mul_emod]
  rw [hmul, h.offset]
  generalize k * (n : Int) = v
  unfold int32 uint64
  omega

theorem retarget_fields {st st' : State} {p : Int} (h : retarget st a = .ok (st', a', p)) :
    a'.basePageIndex = a.basePageIndex ∧ a'.offset = a.offset % pageSize := by
  unfold retarget at h
  dsimp only at h
  split at h
  all_goals
    obtain ⟨_, _, h⟩ := bind_ok_iff.mp h
    obtain ⟨_, _, h⟩ := bind_ok_iff.mp h
    cases h
    exact ⟨rfl, rfl⟩

theorem pageFault_fields {st st' : State} {host : (Nat → UInt8) → Nat → UInt8}
    (h : pageFault cfg G host st a = .ok (st', a')) :
    a'.basePageIndex = a.basePageIndex ∧ a'.offset = a.offset % pageSize ∧ a'.prmPtr ≠ none := by
  obtain ⟨⟨s₁, b, p⟩, hr, h⟩ := bind_ok_iff.mp h
  obtain ⟨h₁, h₂⟩ := retarget_fields hr
  dsimp only at h
  split at h
  · cases h
    exact ⟨h₁, h₂, Option.some_ne_none _⟩
  · obtain ⟨_, _, h⟩ := bind_ok_iff.mp h
    obtain ⟨_, _, h⟩ := bind_ok_iff.mp h
    cases h
    exact ⟨h₁, h₂, Option.some_ne_none _⟩

/-- `deref` は、`offset` がページの中にあれば `Aptr` を変えず、なければ `page_fault` でつなぐ。 -/
theorem deref_fields {st st' : State} {x : Nat} {host : (Nat → UInt8) → Nat → UInt8}
    (h : deref cfg G host st a = .ok (st', a', x)) :
    isValid a.offset = true ∧ a' = a ∨ isValid a.offset = false ∧ a'.basePageIndex = a.basePageIndex ∧
      a'.offset = a.offset % pageSize ∧ a'.prmPtr ≠ none := by
  unfold deref at h
  dsimp only at h
  cases hv : isValid a.offset with
  | true =>
      rw [if_pos hv] at h
      obtain ⟨_, hp, h⟩ := bind_ok_iff.mp h
      cases hp
      obtain ⟨_, _, h⟩ := bind_ok_iff.mp h
      cases h
      exact Or.inl ⟨rfl, rfl⟩
  | false =>
      rw [if_neg (by rw [hv]; exact Bool.false_ne_true)] at h
      obtain ⟨_, hp, h⟩ := bind_ok_iff.mp h
      obtain ⟨_, _, h⟩ := bind_ok_iff.mp h
      cases h
      exact Or.inr ⟨rfl, pageFault_fields hp⟩

theorem Aptr.Follows.deref {st st' : State} {x : Nat} {host : (Nat → UInt8) → Nat → UInt8} (h : a.Follows t)
    (hd : deref cfg G host st a = .ok (st', a', x)) : a'.Follows t.deref := by
  have hv := isValid_iff_not_away h
  have hsome {o : Option Nat} (ho : o ≠ none) : o.isSome = true := Option.isSome_iff_ne_none.mpr ho
  unfold Trail.deref
  rcases deref_fields hd with ⟨hval, rfl⟩ | ⟨hval, hb, ho, hp⟩
  · have haway := hv.mp hval
    split
    · refine ⟨h.base, ?_, ?_⟩
      · rw [h.linked]
        rename_i hl
        exact hl.resolve_right haway
      · -- ページの差は `2^20` の倍数なので、`home` を指すページに取り替えても `offset` は変わらない。
        rw [h.offset]
        unfold Trail.Away pageSize at haway
        unfold int32 pageSize
        dsimp only
        omega
    · exact h
  · have haway : t.Away := by
      by_contra hn
      rw [hv.mpr hn] at hval
      cases hval
    rw [if_pos (Or.inr haway)]
    refine ⟨by rw [hb]; exact h.base, hsome hp, ?_⟩
    rw [ho, h.offset]
    unfold int32 pageSize
    dsimp only
    omega

/-! ## 操作の列 -/

theorem Sys.Tracks.get (h : s.Tracks l) (ha : s.get d = .ok a) : Traced (some a) l[d]?.join := by
  have ht := h.traced d
  rw [Sys.get_ok_iff.mp ha] at ht
  exact ht

theorem Traced.follows (h : Traced (some a) (some t)) : a.Follows t := h

/-- 空でない `Aptr` には履歴がある。 -/
theorem Sys.Tracks.follows (h : s.Tracks l) (ha : s.get d = .ok a) (hb : 0 ≤ a.basePageIndex) :
    ∃ t, l[d]?.join = some t ∧ a.Follows t := by
  have ht := h.get ha
  cases ho : l[d]?.join with
  | none =>
      rw [ho] at ht
      exact absurd hb (Int.not_le.mpr ht)
  | some t =>
      rw [ho] at ht
      exact ⟨t, rfl, ht⟩

theorem Sys.Tracks.append {st : State} {o : Option Aptr} {o' : Option Trail} (h : s.Tracks l) (ho : Traced o o') :
    Sys.Tracks { state := st, aptrs := s.aptrs ++ [o] } (l ++ [o']) := by
  refine ⟨by simp [h.length], fun e => ?_⟩
  rw [List.getElem?_append, List.getElem?_append, ← h.length]
  split
  · exact h.traced e
  · cases e - s.aptrs.length with
    | zero => exact ho
    | succ k => exact rfl

theorem Sys.Tracks.set (h : s.Tracks l) {st : State} {o : Option Aptr} {o' : Option Trail} (ho : Traced o o') :
    Sys.Tracks { state := st, aptrs := s.aptrs.set d o } (l.set d o') := by
  refine ⟨by simp [h.length], fun e => ?_⟩
  show Traced (s.aptrs.set d o)[e]?.join (l.set d o')[e]?.join
  rw [List.getElem?_set, List.getElem?_set, ← h.length]
  split
  · split
    · exact ho
    · exact rfl
  · exact h.traced e

theorem Traced.map {o : Option Trail} {f : Trail → Trail} (h : Traced (some a) o)
    (hb : a'.basePageIndex = a.basePageIndex) (hf : ∀ t, a.Follows t → a'.Follows (f t)) :
    Traced (some a') (o.map f) := by
  cases o with
  | none =>
      show a'.basePageIndex < 0
      rw [hb]
      exact h
  | some t => exact hf t h

theorem reset_traced {st st' : State} (h : a.reset st = .ok (st', a')) : Traced (some a') none := by
  have hb : a'.basePageIndex = -1 := by
    unfold Aptr.reset at h
    dsimp only at h
    split at h
    · cases h
      rfl
    · obtain ⟨_, _, h⟩ := bind_ok_iff.mp h
      cases h
      rfl
  show a'.basePageIndex < 0
  omega

theorem Sys.Tracks.step {op : Op} (h : s.Tracks l) (hs : s.step cfg G id op = .ok s') : s'.Tracks (trailStep l op) := by
  have hderef {d x : Nat} {a a' : Aptr} {st : State} (ha : s.get d = .ok a)
      (hd : deref cfg G id s.state a = .ok (st, a', x)) : Traced (some a') (l[d]?.join.map Trail.deref) := by
    refine (h.get ha).map ?_ fun t ht => ht.deref hd
    rcases deref_fields hd with ⟨_, rfl⟩ | ⟨_, hb, _⟩
    · rfl
    · exact hb
  cases op with
  | construct x n =>
      obtain ⟨a, ha, hs⟩ := bind_ok_iff.mp hs
      cases hs
      exact h.append (construct_follows ha)
  | null junk =>
      cases hs
      exact h.append (show (-1 : Int) < 0 by decide)
  | copy src =>
      obtain ⟨a, ha, hs⟩ := bind_ok_iff.mp hs
      cases hs
      exact h.append ((h.get ha).map rfl fun t ht => ht.doCopy)
  | assign dst src =>
      obtain ⟨a, _, hs⟩ := bind_ok_iff.mp hs
      obtain ⟨⟨st, b⟩, hb, hs⟩ := bind_ok_iff.mp hs
      obtain ⟨c, hc, hs⟩ := bind_ok_iff.mp hs
      cases hs
      have h₁ : Sys.Tracks ({ s with state := st }.set dst (some b)) (l.set dst none) := h.set (reset_traced hb)
      exact h₁.set ((h₁.get hc).map rfl fun t ht => ht.doCopy)
  | move d n k =>
      obtain ⟨a, ha, hs⟩ := bind_ok_iff.mp hs
      cases hs
      exact h.set ((h.get ha).map rfl fun t ht => ht.move)
  | hint d b =>
      obtain ⟨a, ha, hs⟩ := bind_ok_iff.mp hs
      cases hs
      have hself : l.set d (l[d]?.join.map id) = l := by
        have hlt : d < l.length := h.length ▸ (List.getElem?_eq_some_iff.mp (Sys.get_ok_iff.mp ha)).1
        rw [List.getElem?_eq_getElem hlt, Option.join_some, Option.map_id, id, List.set_getElem_self]
      have ht : Traced (some { a with hintWrite := b }) (l[d]?.join.map id) :=
        (h.get ha).map rfl fun t ht => ⟨ht.base, ht.linked, ht.offset⟩
      rw [trailStep, ← hself]
      exact h.set ht
  | read d =>
      obtain ⟨a, ha, hs⟩ := bind_ok_iff.mp hs
      obtain ⟨⟨st, a', x⟩, hd, hs⟩ := bind_ok_iff.mp hs
      cases hs
      exact h.set (hderef ha hd)
  | write d v =>
      obtain ⟨a, ha, hs⟩ := bind_ok_iff.mp hs
      obtain ⟨⟨st, a', x⟩, hd, hs⟩ := bind_ok_iff.mp hs
      cases hs
      exact h.set (hderef ha hd)
  | reset d =>
      obtain ⟨a, ha, hs⟩ := bind_ok_iff.mp hs
      obtain ⟨⟨st, a'⟩, hr, hs⟩ := bind_ok_iff.mp hs
      cases hs
      exact h.set (reset_traced hr)
  | destroy d =>
      obtain ⟨a, ha, hs⟩ := bind_ok_iff.mp hs
      obtain ⟨⟨st, a'⟩, hr, hs⟩ := bind_ok_iff.mp hs
      cases hs
      exact h.set (o := none) rfl

theorem Sys.Tracks.run {ops : List Op} (h : s.Tracks l) (hr : s.run cfg G ops = .ok s') :
    s'.Tracks (ops.foldl trailStep l) := by
  induction ops generalizing s l with
  | nil =>
      cases hr
      exact h
  | cons op ops ih =>
      obtain ⟨s₁, hs, hr⟩ := bind_ok_iff.mp hr
      exact ih (h.step hs) hr

theorem Sys.init_tracks (cfg : Config) (epc pool : Nat → UInt8) (key : Key) (rand : Nat → Nonce) :
    (Sys.init cfg epc pool key rand).Tracks [] := ⟨rfl, fun _ => rfl⟩

/-- 参照が安全であるのは、つながっているか、`home` のページの外を指すとき、かつそのときに限る。 -/
theorem Sys.Tracks.derefSafe_iff (h : s.Tracks l) :
    s.DerefSafe cfg G d ↔ ∀ t, l[d]?.join = some t → t.linked = true ∨ t.Away := by
  constructor
  · intro hs t ht
    have htr := h.traced d
    rw [ht] at htr
    cases ho : s.aptrs[d]?.join with
    | none =>
        rw [ho] at htr
        cases htr
    | some a =>
        rw [ho] at htr
        have hf := htr.follows
        have hget : s.get d = .ok a := Sys.get_ok_iff.mpr (Option.join_eq_some_iff.mp ho)
        cases hp : a.prmPtr with
        | some i =>
            left
            rw [← hf.linked, hp]
            rfl
        | none =>
            right
            by_contra hn
            have hv := hs.fault a hget hf.base hp
            rw [(isValid_iff_not_away hf).mpr hn] at hv
            cases hv
  · intro hc
    have hfault (a : Aptr) (ha : s.get d = .ok a) (hb : 0 ≤ a.basePageIndex) (hp : a.prmPtr = none) :
        isValid a.offset = false := by
      obtain ⟨t, ht, hf⟩ := h.follows ha hb
      have hl : t.linked ≠ true := by
        rw [← hf.linked, hp]
        exact Bool.false_ne_true
      have haway := (hc t ht).resolve_left hl
      cases hv : isValid a.offset with
      | false => rfl
      | true => exact absurd haway ((isValid_iff_not_away hf).mp hv)
    refine ⟨hfault, ?_⟩
    intro a st a' x ha hb hd hnone
    rcases deref_fields hd with ⟨hv, rfl⟩ | ⟨_, _, _, hp⟩
    · rw [hfault a' ha hb hnone] at hv
      cases hv
    · exact hp hnone

end Eleos.Pager
