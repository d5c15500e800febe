import Eleos.Libc.Lemmas.Scope

/-!
# 一バイトずつ進む関数

`memset_aptr`、`memcmp_reg_aptr` は一つの `Aptr` を、`memcmp_aptr_aptr`、`memcpy_aptr` は二つの `Aptr` を、
一バイトずつ進める。
-/

namespace Eleos.Libc

open Pager

variable {cfg : Config} {G : Gcm} {s s' s'' : Sys} {a a' b b' : Aptr} {d e i j n : Nat} {y z : Int}
  {R : Int → Prop} {M M' : Int → Option UInt8}

/-! ## 一つの `Aptr` -/

theorem mod_lt (y : Int) : y % (pageSize : Int) + (1 : Nat) ≤ pageSize := by
  unfold pageSize
  omega

theorem put_ok (hG : G.Correct) (h : Ready cfg G s) (hc : Cursor s d a y) (hh : a.hintWrite = true)
    (hp : InPool cfg y 1) (hr : RoomFor cfg (s.set d none) [y / pageSize]) (v : UInt8) : ∃ s' i,
      putBytes cfg G s d [v] = .ok s' ∧
        Passed cfg G s d (Range y 1) (overlay (lastWrite s.state.trace) y [v]) s' (a.linkTo i) := by
  obtain ⟨s₁, i, htouch, ht⟩ := hc.touch_ok hG h hp hr
  refine ⟨_, i, bind_ok_iff.mpr ⟨_, htouch, rfl⟩, ?_⟩
  rw [linkTo_addr, hc.addr]
  exact ht.store [v] hh (mod_lt y)

theorem get_ok (hG : G.Correct) (h : Ready cfg G s) (hc : Cursor s d a y) (hp : InPool cfg y 1)
    (hr : RoomFor cfg (s.set d none) [y / pageSize]) : ∃ s' v i, getByte cfg G s d = .ok (s', v) ∧
      Passed cfg G s d (Range y 1) (lastWrite s.state.trace) s' (a.linkTo i) ∧
      ∀ w, lastWrite s.state.trace y = some w → v = w := by
  obtain ⟨s₁, i, htouch, ht⟩ := hc.touch_ok hG h hp hr
  refine ⟨_, _, i, bind_ok_iff.mpr ⟨_, htouch, rfl⟩, ?_, ?_⟩
  · rw [linkTo_addr, hc.addr]
    exact ht.load (mod_lt y)
  · intro w hw
    have := ht.byte (k := 0) (by have := mod_lt y; push_cast at *; omega) (by rw [Nat.cast_zero, Int.add_zero]; exact hw)
    rwa [Nat.add_zero] at this

theorem advance_ok (hG : G.Correct) (hc : Cursor s d a y) (h : Passed cfg G s d R M s' (a.linkTo i)) :
    ∃ s'', advance s' d 1 = .ok s'' ∧ Passed cfg G s d R M s'' (moveAptr (a.linkTo i) 1) ∧
      Cursor s'' d (moveAptr (a.linkTo i) 1) (y + 1) := by
  have hmv := h.edit (moveAptr (a.linkTo i) 1) hG hc.get rfl rfl rfl
  refine ⟨_, bind_ok_iff.mpr ⟨_, h.get hc.get, rfl⟩, hmv, hc.move (by omega) ?_ (hmv.get hc.get)⟩
  exact mod_lt y

theorem head_room {n : Nat} (hr : ∀ k < n + 1, RoomFor cfg (s.set d none) [(y + (k : Nat)) / pageSize]) :
    RoomFor cfg (s.set d none) [y / pageSize] := by
  have := hr 0 (Nat.succ_pos n)
  rwa [Nat.cast_zero, Int.add_zero] at this

theorem InPool.head (h : InPool cfg y (n + 1)) : InPool cfg y 1 :=
  ⟨h.lo, by have := h.hi; push_cast at *; omega⟩

theorem InPool.tail (h : InPool cfg y (n + 1)) : InPool cfg (y + 1) n := h.sub (by omega) (by push_cast; omega)

theorem Range.head {x : Int} (h : Range y 1 x) : Range y (n + 1) x :=
  ⟨h.1, by have := h.2; push_cast at *; omega⟩

theorem Range.tail {x : Int} (h : Range (y + 1) n x) : Range y (n + 1) x :=
  ⟨by have := h.1; omega, by have := h.2; push_cast at *; omega⟩

theorem memsetLoop_ok (hG : G.Correct) {c : UInt8} (h : Ready cfg G s) (hc : Cursor s d a y)
    (hh : a.hintWrite = true) (hp : InPool cfg y n)
    (hr : ∀ k < n, RoomFor cfg (s.set d none) [(y + (k : Nat)) / pageSize]) : ∃ s' a',
      memsetLoop cfg G d c n s = .ok s' ∧
        Passed cfg G s d (Range y n) (overlay (lastWrite s.state.trace) y (List.replicate n c)) s' a' := by
  induction n generalizing s a y with
  | zero =>
      rw [List.replicate_zero, overlay_nil]
      exact ⟨s, a, rfl, .refl h hc.get⟩
  | succ n ih =>
      obtain ⟨s₁, i, hput, h₁⟩ := put_ok hG h hc hh hp.head (head_room hr) c
      obtain ⟨s₂, hadv, h₂, hc₂⟩ := advance_ok hG hc h₁
      obtain ⟨s₃, a₃, hloop, h₃⟩ := ih h₂.ready hc₂ hh hp.tail (h₂.rest hr (by omega) (by push_cast; omega))
      refine ⟨s₃, a₃, ?_, ?_⟩
      · exact bind_ok_iff.mpr ⟨s₁, hput, bind_ok_iff.mpr ⟨s₂, hadv, hloop⟩⟩
      · rw [h₂.last] at h₃
        have hM := overlay_append (lastWrite s.state.trace) y [c] (List.replicate n c)
        rw [List.length_singleton, Nat.cast_one, List.singleton_append, ← List.replicate_succ] at hM
        rw [← hM]
        exact (h₂.mono fun _ => Range.head).trans (h₃.mono fun _ => Range.tail)

/-! ## 比較 -/

theorem Compares.nil (u w : Nat → UInt8) : Compares 0 u w 0 :=
  ⟨iff_of_true rfl fun k hk => absurd hk (Nat.not_lt_zero k), fun k hk => absurd hk (Nat.not_lt_zero k)⟩

theorem Compares.differ {u w : Nat → UInt8} (h : u 0 ≠ w 0) : Compares (n + 1) u w ((u 0).toNat - (w 0).toNat) := by
  refine ⟨iff_of_false ?_ fun hall => h (hall 0 (Nat.succ_pos n)), ?_⟩
  · intro h0
    exact h (UInt8.toNat_inj.mp (by omega))
  · intro k _ hpre _
    cases k with
    | zero => rfl
    | succ k => exact absurd (hpre 0 (Nat.succ_pos k)) h

theorem Compares.same {u w : Nat → UInt8} {r : Int} (h : u 0 = w 0)
    (hr : Compares n (fun k => u (k + 1)) (fun k => w (k + 1)) r) : Compares (n + 1) u w r := by
  refine ⟨hr.zero.trans ⟨?_, ?_⟩, ?_⟩
  · intro hall k hk
    cases k with
    | zero => exact h
    | succ k => exact hall k (by omega)
  · exact fun hall k hk => hall (k + 1) (by omega)
  · intro k hk hpre hne
    cases k with
    | zero => exact absurd h hne
    | succ k => exact hr.first k (by omega) (fun j hj => hpre (j + 1) (by omega)) hne

theorem memcmpRegAptrLoop_ok (hG : G.Correct) {us : List UInt8} (h : Ready cfg G s) (hc : Cursor s d a y)
    (hp : InPool cfg y us.length) (hr : ∀ k < us.length, RoomFor cfg (s.set d none) [(y + (k : Nat)) / pageSize]) :
    ∃ s' r a', memcmpRegAptrLoop cfg G d us s = .ok (s', r) ∧
      Passed cfg G s d (Range y us.length) (lastWrite s.state.trace) s' a' ∧
      ∀ u w : Nat → UInt8, (∀ k < us.length, us[k]? = some (u k)) →
        (∀ k < us.length, lastWrite s.state.trace (y + (k : Nat)) = some (w k)) → Compares us.length u w r := by
  induction us generalizing s a y with
  | nil => exact ⟨s, 0, a, rfl, .refl h hc.get, fun u w _ _ => .nil u w⟩
  | cons u₁ us ih =>
      obtain ⟨s₁, v, i, hget, h₁, hv⟩ := get_ok hG h hc hp.head (head_room hr)
      have hhead {u w : Nat → UInt8} (hu : ∀ k < (u₁ :: us).length, (u₁ :: us)[k]? = some (u k))
          (hw : ∀ k < (u₁ :: us).length, lastWrite s.state.trace (y + (k : Nat)) = some (w k)) : u₁ = u 0 ∧ v = w 0 := by
        have hw₀ := hw 0 (Nat.succ_pos _)
        rw [Nat.cast_zero, Int.add_zero] at hw₀
        exact ⟨Option.some.inj (hu 0 (Nat.succ_pos _)), hv _ hw₀⟩
      by_cases hne : u₁ ≠ v
      · refine ⟨s₁, u₁.toNat - v.toNat, a.linkTo i, bind_ok_iff.mpr ⟨_, hget, by dsimp only; rw [if_pos hne]⟩,
          h₁.mono fun _ => Range.head, ?_⟩
        intro u w hu hw
        obtain ⟨hu₀, hw₀⟩ := hhead hu hw
        rw [hu₀, hw₀] at hne ⊢
        exact .differ hne
      · obtain ⟨s₂, hadv, h₂, hc₂⟩ := advance_ok hG hc h₁
        obtain ⟨s₃, r, a₃, hloop, h₃, hcmp⟩ := ih h₂.ready hc₂ hp.tail (h₂.rest hr (by omega) (by
          rw [List.length_cons]
          push_cast
          omega))
        rw [h₂.last] at h₃ hcmp
        refine ⟨s₃, r, a₃, bind_ok_iff.mpr ⟨_, hget, ?_⟩,
          (h₂.mono fun _ => Range.head).trans (h₃.mono fun _ => Range.tail), ?_⟩
        · dsimp only
          rw [if_neg hne]
          exact bind_ok_iff.mpr ⟨s₂, hadv, hloop⟩
        · intro u w hu hw
          obtain ⟨hu₀, hw₀⟩ := hhead hu hw
          refine .same (by rw [← hu₀, ← hw₀]; exact not_not.mp hne) (hcmp _ _ ?_ ?_)
          · exact fun k hk => hu (k + 1) (Nat.succ_lt_succ hk)
          · intro k hk
            have := hw (k + 1) (Nat.succ_lt_succ hk)
            rw [Int.add_assoc, Int.add_comm 1]
            exact this

/-! ## 二つの `Aptr` -/

/-- `d` と `e` の `Aptr` だけを使う計算の前後。 -/
structure Paired (cfg : Config) (G : Gcm) (s : Sys) (d e : Nat) (R : Int → Prop) (M : Int → Option UInt8) (s' : Sys)
    (a' b' : Aptr) : Prop where
  ready : Ready cfg G s'
  aptrs : s'.aptrs = (s.aptrs.set d (some a')).set e (some b')
  last : lastWrite s'.state.trace = M
  trace : ∃ l, s'.state.trace = l ++ s.state.trace ∧ ∀ ev ∈ l, Touches R ev

theorem Paired.refl (h : Ready cfg G s) (ha : s.get d = .ok a) (hb : s.get e = .ok b) :
    Paired cfg G s d e R (lastWrite s.state.trace) s a b := by
  refine ⟨h, ?_, rfl, Grown.refl⟩
  rw [aptrs_self ha, aptrs_self hb]

theorem Paired.mono {R' : Int → Prop} (h : Paired cfg G s d e R M s' a' b') (hR : ∀ x, R x → R' x) :
    Paired cfg G s d e R' M s' a' b' := by
  exact ⟨h.ready, h.aptrs, h.last, Grown.mono h.trace hR⟩

theorem Paired.trans (hne : d ≠ e) (h : Paired cfg G s d e R M s' a b) (h' : Paired cfg G s' d e R M' s'' a' b') :
    Paired cfg G s d e R M' s'' a' b' := by
  refine ⟨h'.ready, ?_, h'.last, Grown.trans h.trace h'.trace⟩
  rw [h'.aptrs, h.aptrs, List.set_comm _ _ hne.symm, List.set_set, List.set_set, List.set_comm _ _ hne]

/-- 一方だけを使う計算。 -/
theorem Passed.left (hb : s.get e = .ok b) (hne : d ≠ e) (h : Passed cfg G s d R M s' a') :
    Paired cfg G s d e R M s' a' b := by
  refine ⟨h.ready, ?_, h.last, h.trace⟩
  rw [List.set_comm _ _ hne, aptrs_self hb]
  exact h.aptrs

theorem Passed.right (ha : s.get d = .ok a) (h : Passed cfg G s e R M s' b') : Paired cfg G s d e R M s' a b' := by
  refine ⟨h.ready, ?_, h.last, h.trace⟩
  rw [aptrs_self ha]
  exact h.aptrs

theorem get_other (hb : s.get e = .ok b) (hne : d ≠ e) {o : Option Aptr} (hs : s'.aptrs = s.aptrs.set d o) :
    s'.get e = .ok b := by
  rw [Sys.get_ok_iff, hs, List.getElem?_set_ne hne]
  exact Sys.get_ok_iff.mp hb

theorem Cursor.other (hc : Cursor s e b z) (hne : d ≠ e) {o : Option Aptr} (hs : s'.aptrs = s.aptrs.set d o) :
    Cursor s' e b z := ⟨get_other hc.get hne hs, hc.base, hc.addr, hc.biased⟩

theorem Paired.get_left (ha : s.get d = .ok a) (hne : d ≠ e) (h : Paired cfg G s d e R M s' a' b') :
    s'.get d = .ok a' := by
  rw [Sys.get_ok_iff, h.aptrs, List.getElem?_set_ne hne.symm, List.getElem?_set_self]
  exact (List.getElem?_eq_some_iff.mp (Sys.get_ok_iff.mp ha)).1

theorem Paired.get_right (hb : s.get e = .ok b) (h : Paired cfg G s d e R M s' a' b') : s'.get e = .ok b' := by
  rw [Sys.get_ok_iff, h.aptrs, List.getElem?_set_self]
  rw [List.length_set]
  exact (List.getElem?_eq_some_iff.mp (Sys.get_ok_iff.mp hb)).1

/-- 二つの `Aptr` を除いた状態の余地。 -/
def PairRoom (cfg : Config) (s : Sys) (d e : Nat) (ps : List Int) : Prop := RoomFor cfg ((s.set d none).set e none) ps

theorem RoomFor.perm {ps qs : List Int} (h : RoomFor cfg s ps) (hp : ps.Perm qs) : RoomFor cfg s qs := by
  refine ⟨fun p => ?_, ?_⟩
  · rw [← hp.count_eq]
    exact h.links p
  · rw [← ((hp.append_right s.linked).dedup).length_eq]
    exact h.pages

theorem PairRoom.swap {ps : List Int} (hne : d ≠ e) (h : PairRoom cfg s d e ps) : PairRoom cfg s e d ps := by
  unfold PairRoom Sys.set at *
  rw [List.set_comm _ _ hne.symm]
  exact h

/-- 他方がつながっているページを含めて余地があれば、一方をつなげる。 -/
theorem PairRoom.single {p : Int} (hb : s.get e = .ok b) (hne : d ≠ e)
    (h : PairRoom cfg s d e (b.linkedPage?.toList ++ [p])) : RoomFor cfg (s.set d none) [p] := by
  have hb' : (s.set d none).get e = .ok b := get_other hb hne (o := none) rfl
  rw [← set_self hb', roomFor_set hb', Option.bind_some]
  exact h

theorem Paired.room {ps : List Int} (hne : d ≠ e) (h : Paired cfg G s d e R M s' a' b') (hr : PairRoom cfg s d e ps) :
    PairRoom cfg s' d e ps := by
  refine RoomFor.congr hr ?_
  unfold Sys.linked Sys.set
  dsimp only
  rw [h.aptrs, List.set_comm (some b') none hne.symm, List.set_set, List.set_set]

/-- 二つの `Aptr` が `y` と `z` から並んで `n` バイト進める状態。`Aptr` は前のページにつながったままでよい。 -/
structure Tandem (cfg : Config) (G : Gcm) (s : Sys) (d e : Nat) (a b : Aptr) (y z : Int) (n : Nat) : Prop where
  ready : Ready cfg G s
  ne : d ≠ e
  left : Cursor s d a y
  right : Cursor s e b z
  leftPool : InPool cfg y n
  rightPool : InPool cfg z n
  room : ∀ j < n, ∀ k < n, j ≤ k + 1 → k ≤ j + 1 →
    PairRoom cfg s d e [(y + (j : Nat)) / pageSize, (z + (k : Nat)) / pageSize]
  leftRoom : 0 < n → PairRoom cfg s d e (b.linkedPage?.toList ++ [y / pageSize])
  rightRoom : 0 < n → PairRoom cfg s d e (a.linkedPage?.toList ++ [z / pageSize])

theorem Tandem.head (h : Tandem cfg G s d e a b y z (n + 1)) : PairRoom cfg s d e [y / pageSize, z / pageSize] := by
  have := h.room 0 (Nat.succ_pos n) 0 (Nat.succ_pos n) (by omega) (by omega)
  rwa [Nat.cast_zero, Int.add_zero, Int.add_zero] at this

/-- 一方をつないだあとの、他方の余地。 -/
theorem Tandem.roomRight (hs : s'.aptrs = s.aptrs.set d (some (a.linkTo i)))
    (h : Tandem cfg G s d e a b y z (n + 1)) : RoomFor cfg (s'.set e none) [z / pageSize] := by
  have hget : s'.get d = .ok (a.linkTo i) := Sys.get_ok_iff.mpr (get_of_aptrs h.left.get hs)
  refine PairRoom.single hget h.ne.symm ?_
  rw [Aptr.linkTo_linkedPage?, h.left.target]
  refine PairRoom.swap h.ne (RoomFor.congr h.head ?_)
  unfold Sys.linked Sys.set
  rw [hs, List.set_set]

theorem Tandem.roomLeft (hs : s'.aptrs = s.aptrs.set e (some (b.linkTo j)))
    (h : Tandem cfg G s d e a b y z (n + 1)) : RoomFor cfg (s'.set d none) [y / pageSize] := by
  have hget : s'.get e = .ok (b.linkTo j) := Sys.get_ok_iff.mpr (get_of_aptrs h.right.get hs)
  refine PairRoom.single hget h.ne ?_
  rw [Aptr.linkTo_linkedPage?, h.right.target]
  refine RoomFor.perm (RoomFor.congr h.head ?_) (List.Perm.swap _ _ _)
  unfold Sys.linked Sys.set
  dsimp only
  rw [hs, List.set_comm (some (b.linkTo j)) none h.ne.symm, List.set_set]

/-- 二つの `Aptr` を一バイト進める。 -/
theorem Tandem.next (hG : G.Correct) (h : Tandem cfg G s d e a b y z (n + 1))
    (hp : Paired cfg G s d e R M s' (a.linkTo i) (b.linkTo j)) : ∃ s₁ s₂, advance s' d 1 = .ok s₁ ∧
      advance s₁ e 1 = .ok s₂ ∧
      Paired cfg G s d e R M s₂ (moveAptr (a.linkTo i) 1) (moveAptr (b.linkTo j) 1) ∧
      Tandem cfg G s₂ d e (moveAptr (a.linkTo i) 1) (moveAptr (b.linkTo j) 1) (y + 1) (z + 1) n := by
  have hd := hp.get_left h.left.get h.ne
  have he := hp.get_right h.right.get
  have he' : (s'.set d (some (moveAptr (a.linkTo i) 1))).get e = .ok (b.linkTo j) := get_other he h.ne rfl
  have hr := (hp.ready.edit (b := moveAptr (a.linkTo i) 1) hG hd rfl rfl rfl).edit
    (b := moveAptr (b.linkTo j) 1) hG he' rfl rfl rfl
  have hp' : Paired cfg G s d e R M
      ((s'.set d (some (moveAptr (a.linkTo i) 1))).set e (some (moveAptr (b.linkTo j) 1)))
      (moveAptr (a.linkTo i) 1) (moveAptr (b.linkTo j) 1) := by
    refine ⟨hr, ?_, hp.last, hp.trace⟩
    unfold Sys.set
    dsimp only
    rw [hp.aptrs, List.set_comm (some (b.linkTo j)) _ h.ne.symm, List.set_set, List.set_set]
  have hla : (moveAptr (a.linkTo i) 1).linkedPage? = some (y / pageSize) := by
    show (a.linkTo i).linkedPage? = _
    rw [Aptr.linkTo_linkedPage?, h.left.target]
  have hlb : (moveAptr (b.linkTo j) 1).linkedPage? = some (z / pageSize) := by
    show (b.linkTo j).linkedPage? = _
    rw [Aptr.linkTo_linkedPage?, h.right.target]
  refine ⟨_, _, bind_ok_iff.mpr ⟨_, hd, rfl⟩, bind_ok_iff.mpr ⟨_, he', rfl⟩, hp', ⟨hr, h.ne, ?_, ?_, h.leftPool.tail,
    h.rightPool.tail, ?_, ?_, ?_⟩⟩
  · exact h.left.move (by omega) (mod_lt y) (hp'.get_left h.left.get h.ne)
  · exact h.right.move (by omega) (mod_lt z) (hp'.get_right h.right.get)
  · intro k₁ h₁ k₂ h₂ h₃ h₄
    have := h.room (k₁ + 1) (by omega) (k₂ + 1) (by omega) (by omega) (by omega)
    rw [show y + 1 + (k₁ : Int) = y + ((k₁ + 1 : Nat) : Int) by push_cast; ring,
      show z + 1 + (k₂ : Int) = z + ((k₂ + 1 : Nat) : Int) by push_cast; ring]
    exact hp'.room h.ne this
  · intro hn
    have := h.room 1 (by omega) 0 (by omega) (by omega) (by omega)
    rw [Nat.cast_one, Nat.cast_zero, Int.add_zero] at this
    rw [hlb]
    exact RoomFor.perm (hp'.room h.ne this) (List.Perm.swap _ _ _)
  · intro hn
    have := h.room 0 (by omega) 1 (by omega) (by omega) (by omega)
    rw [Nat.cast_one, Nat.cast_zero, Int.add_zero] at this
    rw [hla]
    exact hp'.room h.ne this

theorem Ranges.head {x : Int} (h : Ranges y z 1 x) : Ranges y z (n + 1) x := h.imp Range.head Range.head

theorem Ranges.tail {x : Int} (h : Ranges (y + 1) (z + 1) n x) : Ranges y z (n + 1) x := h.imp Range.tail Range.tail

/-! ## `memcmp_aptr_aptr` -/

theorem Tandem.getBoth (hG : G.Correct) (h : Tandem cfg G s d e a b y z (n + 1)) : ∃ s₁ s₂ u v i j,
    getByte cfg G s d = .ok (s₁, u) ∧ getByte cfg G s₁ e = .ok (s₂, v) ∧
      Paired cfg G s d e (Ranges y z 1) (lastWrite s.state.trace) s₂ (a.linkTo i) (b.linkTo j) ∧
      (∀ w, lastWrite s.state.trace y = some w → u = w) ∧ ∀ w, lastWrite s.state.trace z = some w → v = w := by
  obtain ⟨s₁, u, i, hu, h₁, hu'⟩ := get_ok hG h.ready h.left h.leftPool.head
    (PairRoom.single h.right.get h.ne (h.leftRoom (Nat.succ_pos n)))
  have hc₂ := h.right.other h.ne h₁.aptrs
  obtain ⟨s₂, v, j, hv, h₂, hv'⟩ := get_ok hG h₁.ready hc₂ h.rightPool.head (h.roomRight h₁.aptrs)
  rw [h₁.last] at h₂ hv'
  refine ⟨s₁, s₂, u, v, i, j, hu, hv, ?_, hu', hv'⟩
  exact ((h₁.left h.right.get h.ne).mono fun _ hx => Or.inl hx).trans h.ne
    ((h₂.right (h₁.get h.left.get)).mono fun _ hx => Or.inr hx)

theorem memcmpAptrAptrLoop_ok (hG : G.Correct) (h : Tandem cfg G s d e a b y z n) : ∃ s' r a' b',
    memcmpAptrAptrLoop cfg G d e n s = .ok (s', r) ∧
      Paired cfg G s d e (Ranges y z n) (lastWrite s.state.trace) s' a' b' ∧
      ∀ u w : Nat → UInt8, (∀ k < n, lastWrite s.state.trace (y + (k : Nat)) = some (u k)) →
        (∀ k < n, lastWrite s.state.trace (z + (k : Nat)) = some (w k)) → Compares n u w r := by
  induction n generalizing s a b y z with
  | zero => exact ⟨s, 0, a, b, rfl, .refl h.ready h.left.get h.right.get, fun u w _ _ => .nil u w⟩
  | succ n ih =>
      obtain ⟨s₁, s₂, u₁, v, i, j, hu, hv, h₂, hu', hv'⟩ := h.getBoth hG
      have hhead {x : Int} {v : UInt8} {w : Nat → UInt8} (hv : ∀ w, lastWrite s.state.trace x = some w → v = w)
          (hw : ∀ k < n + 1, lastWrite s.state.trace (x + (k : Nat)) = some (w k)) : v = w 0 := by
        have hw₀ := hw 0 (Nat.succ_pos _)
        rw [Nat.cast_zero, Int.add_zero] at hw₀
        exact hv _ hw₀
      by_cases hne : u₁ ≠ v
      · refine ⟨s₂, u₁.toNat - v.toNat, a.linkTo i, b.linkTo j,
          bind_ok_iff.mpr ⟨_, hu, bind_ok_iff.mpr ⟨_, hv, by dsimp only; rw [if_pos hne]⟩⟩, h₂.mono fun _ => Ranges.head, ?_⟩
        intro u w hu hw
        rw [hhead hu' hu, hhead hv' hw] at hne ⊢
        exact .differ hne
      · obtain ⟨s₃, s₄, hadv, hadv', h₄, ht⟩ := h.next hG h₂
        obtain ⟨s₅, r, a₅, b₅, hloop, h₅, hcmp⟩ := ih ht
        rw [h₄.last] at h₅ hcmp
        refine ⟨s₅, r, a₅, b₅, bind_ok_iff.mpr ⟨_, hu, bind_ok_iff.mpr ⟨_, hv, ?_⟩⟩,
          (h₄.mono fun _ => Ranges.head).trans h.ne (h₅.mono fun _ => Ranges.tail), ?_⟩
        · dsimp only
          rw [if_neg hne]
          exact bind_ok_iff.mpr ⟨s₃, hadv, bind_ok_iff.mpr ⟨s₄, hadv', hloop⟩⟩
        · have htail {x : Int} {w : Nat → UInt8}
              (hw : ∀ k < n + 1, lastWrite s.state.trace (x + (k : Nat)) = some (w k)) :
              ∀ k < n, lastWrite s.state.trace (x + 1 + (k : Nat)) = some (w (k + 1)) := by
            intro k hk
            have := hw (k + 1) (Nat.succ_lt_succ hk)
            rw [Int.add_assoc, Int.add_comm 1]
            exact this
          intro u w hu hw
          exact .same (by rw [← hhead hu' hu, ← hhead hv' hw]; exact not_not.mp hne) (hcmp _ _ (htail hu) (htail hw))

/-! ## `memcpy_aptr` -/

/-- 左辺を先に評価しても、その枠は右辺の `deref` の間に追い出されない。 -/
theorem Touched.late {s₁ s₂ : Sys} {c : Aptr} {v : UInt8} (hc : Cursor s d a y) (h : Touched cfg G s d a y s₁ i)
    (hh : a.hintWrite = true) (hne : d ≠ e) (h' : Touched cfg G s₁ e c z s₂ j) :
    Paired cfg G s d e (Ranges y z 1) (overlay (lastWrite s.state.trace) y [v])
      ⟨storeBytes (loadBytes s₂.state (cfg.slot j + (z % pageSize).toNat) z 1).1
        (cfg.slot i + (y % pageSize).toNat) y [v], s₂.aptrs⟩ (a.linkTo i) (c.linkTo j) := by
  have hd₂ : s₂.get d = .ok (a.linkTo i) := get_other ((h.cursor hc).get) hne.symm h'.aptrs
  have hpage : (a.linkTo i).basePageIndex + (a.linkTo i).page = y / pageSize := by
    have := Aptr.linkTo_linkedPage? (a := a) (i := i)
    rw [hc.target] at this
    exact Option.some.inj this
  have hg₂ := h'.ready.good.links _ i (Sys.mem_of_get hd₂) rfl
  have hz := h'.ready.good.pinned.refCount_ne_zero h'.ready.within (Sys.mem_of_get hd₂) (j := i) rfl
  rw [hpage] at hg₂ hz
  have htag := h'.kept _ _ h.resident hz (h.tagged hh)
  have hld := h'.load (mod_lt z)
  obtain ⟨l, hl⟩ := loadBytes_state (y := z) s₂.state (cfg.slot j + (z % pageSize).toNat) 1
  have hg₃ : (loadBytes s₂.state (cfg.slot j + (z % pageSize).toNat) z 1).1.l1.get (y / pageSize) =
      some ⟨y / pageSize, i⟩ := by
    rw [hl]
    exact hg₂
  have ht₃ : tagBit ((loadBytes s₂.state (cfg.slot j + (z % pageSize).toNat) z 1).1.epcArr i) = true := by
    rw [hl]
    exact htag
  have hlen : (y % (pageSize : Int)).toNat + [v].length ≤ pageSize := by
    have := mod_lt y
    rw [List.length_singleton]
    unfold pageSize at *
    omega
  obtain ⟨hgood, hlast, hacc⟩ := storeBytes_good [v] hld.ready.good hg₃ ht₃ hlen
  rw [page_split] at hgood hlast hacc
  have hread : Grown (Ranges y z 1) s.state.trace _ :=
    (Grown.of_paging h.trace).trans (Grown.mono hld.trace fun _ hx => Or.inr hx)
  refine ⟨⟨hgood, hld.ready.within.links, hld.ready.within.pages⟩, ?_, ?_, hread.trans (hacc.mono fun _ hx => Or.inl hx)⟩
  · show s₂.aptrs = _
    rw [h'.aptrs, h.aptrs]
  · rw [← h.last, ← hld.last]
    exact hlast

theorem assignByte_ok (order : Bool) (hG : G.Correct) (h : Tandem cfg G s d e a b y z (n + 1))
    (hh : a.hintWrite = true) : ∃ s' v i j, assignByte cfg G order s d e = .ok s' ∧
      Paired cfg G s d e (Ranges y z 1) (overlay (lastWrite s.state.trace) y [v]) s' (a.linkTo i) (b.linkTo j) ∧
      ∀ w, lastWrite s.state.trace z = some w → v = w := by
  unfold assignByte
  cases order with
  | true =>
      obtain ⟨s₁, v, j, hv, h₁, hv'⟩ := get_ok hG h.ready h.right h.rightPool.head
        (PairRoom.single h.left.get h.ne.symm (PairRoom.swap h.ne (h.rightRoom (Nat.succ_pos n))))
      obtain ⟨s₂, i, hput, h₂⟩ := put_ok hG h₁.ready (h.left.other h.ne.symm h₁.aptrs) hh h.leftPool.head
        (h.roomLeft h₁.aptrs) v
      rw [h₁.last] at h₂
      refine ⟨s₂, v, i, j, bind_ok_iff.mpr ⟨_, hv, hput⟩, ?_, hv'⟩
      exact ((h₁.right h.left.get).mono fun _ hx => Or.inr hx).trans h.ne
        ((h₂.left (h₁.get h.right.get) h.ne).mono fun _ hx => Or.inl hx)
  | false =>
      obtain ⟨s₁, i, htouch, h₁⟩ := h.left.touch_ok hG h.ready h.leftPool.head
        (PairRoom.single h.right.get h.ne (h.leftRoom (Nat.succ_pos n)))
      obtain ⟨s₂, j, htouch', h₂⟩ := (h.right.other h.ne h₁.aptrs).touch_ok hG h₁.ready h.rightPool.head
        (h.roomRight h₁.aptrs)
      refine ⟨_, s₂.state.epc (cfg.slot j + (z % pageSize).toNat), i, j, bind_ok_iff.mpr ⟨_, htouch, bind_ok_iff.mpr
        ⟨_, bind_ok_iff.mpr ⟨_, htouch', rfl⟩, rfl⟩⟩, ?_, ?_⟩
      · rw [linkTo_addr, h.right.addr, linkTo_addr, h.left.addr]
        exact h₁.late h.left hh h.ne h₂
      · intro w hw
        have := h₂.byte (k := 0) (by have := mod_lt z; push_cast at *; omega)
          (by rw [Nat.cast_zero, Int.add_zero, h₁.last]; exact hw)
        rwa [Nat.add_zero] at this

theorem memcpyLoop_ok (order : Bool) (hG : G.Correct) (h : Tandem cfg G s d e a b y z n) (hh : a.hintWrite = true) :
    ∃ s' vs a' b', memcpyLoop cfg G order d e n s = .ok s' ∧ vs.length = n ∧
      Paired cfg G s d e (Ranges y z n) (overlay (lastWrite s.state.trace) y vs) s' a' b' ∧
      ((∀ x, Range y n x → ¬ Range z n x) → Delivers (lastWrite s.state.trace) z n vs) := by
  induction n generalizing s a b y z with
  | zero =>
      refine ⟨s, [], a, b, rfl, rfl, ?_, fun _ => ⟨rfl, fun k _ hk => absurd hk (Nat.not_lt_zero k)⟩⟩
      rw [overlay_nil]
      exact .refl h.ready h.left.get h.right.get
  | succ n ih =>
      obtain ⟨s₁, v, i, j, hasg, h₁, hv⟩ := assignByte_ok order hG h hh
      obtain ⟨s₂, s₃, hadv, hadv', h₃, ht⟩ := h.next hG h₁
      obtain ⟨s₄, vs, a₄, b₄, hloop, hlen, h₄, hdel⟩ := ih ht hh
      rw [h₃.last] at h₄ hdel
      refine ⟨s₄, v :: vs, a₄, b₄, ?_, by rw [List.length_cons, hlen], ?_, ?_⟩
      · exact bind_ok_iff.mpr ⟨s₁, hasg, bind_ok_iff.mpr ⟨s₂, hadv, bind_ok_iff.mpr ⟨s₃, hadv', hloop⟩⟩⟩
      · have hM := overlay_append (lastWrite s.state.trace) y [v] vs
        rw [List.length_singleton, Nat.cast_one, List.singleton_append] at hM
        rw [← hM]
        exact (h₃.mono fun _ => Ranges.head).trans h.ne (h₄.mono fun _ => Ranges.tail)
      · intro hdis
        have hrest := hdel fun x hx hx' => hdis x hx.tail hx'.tail
        refine ⟨by rw [List.length_cons, hlen], ?_⟩
        intro k w hk hw
        cases k with
        | zero =>
            rw [Nat.cast_zero, Int.add_zero] at hw
            rw [hv w hw]
            rfl
        | succ k =>
            refine hrest.2 k w (by omega) ?_
            have hz : z + 1 + (k : Int) = z + ((k + 1 : Nat) : Int) := by push_cast; ring
            have hout : ¬ Range y [v].length (z + ((k + 1 : Nat) : Int)) := by
              intro hin
              refine hdis _ ⟨hin.1, ?_⟩ ⟨by push_cast; omega, by push_cast at *; omega⟩
              have := hin.2
              rw [List.length_singleton] at this
              push_cast at *
              omega
            rw [hz, overlay_outside hout]
            exact hw

end Eleos.Libc
