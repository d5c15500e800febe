import Eleos.Libc.Lemmas.Copy

/-!
# 局所変数の `Aptr`

呼び出しの初めに構築または複写した `Aptr` は `Sys` の末尾に加わり、戻るときに破棄される。破棄のあとの参照の数は、
呼び出しの前に等しい。
-/

namespace Eleos.Libc

open Pager

variable {cfg : Config} {G : Gcm} {s s' : Sys} {a b : Aptr} {d n : Nat} {y : Int} {R W : Int → Prop}

/-! ## SUVM の中身 -/

theorem byteAt_eq {v : UInt8} (h : s.Good cfg G) (hv : lastWrite s.state.trace y = some v) : byteAt G s y = some v := by
  have ho : (y % (pageSize : Int)).toNat < pageSize := by
    unfold pageSize
    omega
  have hy : byteAddr (y / pageSize) ⟨_, ho⟩ = y := page_split y
  unfold byteAt
  dsimp only
  cases hg : s.state.l1.get (y / pageSize) with
  | some it =>
      have hb := h.holds.resident _ it ⟨_, ho⟩ v hg (by rw [hy]; exact hv)
      dsimp only at hb ⊢
      rw [h.wf.slots it.epc, hb]
  | none =>
      obtain ⟨c, ⟨e, he, hd⟩, hc⟩ := h.holds.absent _ ⟨_, ho⟩ v hg (by rw [hy]; exact hv)
      dsimp only
      rw [he]
      dsimp only
      rw [hd, Option.bind_some, dif_pos ho, hc]

/-- 呼び出しの前後。戻ったときのつながりは元のとおりで、書き込みのあとの中身は `M` である。 -/
structure Returned (cfg : Config) (G : Gcm) (s : Sys) (R : Int → Prop) (M : Int → Option UInt8) (s' : Sys) : Prop where
  ready : Ready cfg G s'
  linked : s'.linked = s.linked
  last : lastWrite s'.state.trace = M
  trace : ∃ l, s'.state.trace = l ++ s.state.trace ∧ ∀ ev ∈ l, Touches R ev

theorem Returned.refl (h : Ready cfg G s) : Returned cfg G s R (lastWrite s.state.trace) s :=
  ⟨h, rfl, rfl, Grown.refl⟩

theorem Returned.effect {M : Int → Option UInt8} (h : Ready cfg G s) (hs : Returned cfg G s R M s')
    (hM : ∀ x, ¬ W x → M x = lastWrite s.state.trace x) : Effect G s s' R W := by
  refine ⟨?_, hs.trace, ?_⟩
  · funext p
    rw [h.good.pinned.count p, hs.ready.good.pinned.count p]
    unfold Sys.linkedCount
    rw [hs.linked]
  · rintro x ⟨v, hv⟩ hx
    rw [byteAt_eq h.good hv, byteAt_eq hs.ready.good (by rw [hs.last, hM x hx, hv])]

/-! ## 構築と破棄 -/

theorem linked_append (st : State) {l : List (Option Aptr)} (hl : ∀ o ∈ l, o.bind Aptr.linkedPage? = none) :
    Sys.linked { state := st, aptrs := s.aptrs ++ l } = s.linked := by
  unfold Sys.linked
  rw [List.filterMap_append, List.filterMap_eq_nil_iff.mpr hl, List.append_nil]

/-- つながっていない `Aptr` を末尾に加えた状態。 -/
def Sys.push (s : Sys) (a : Aptr) : Sys := { s with aptrs := s.aptrs ++ [some a] }

theorem push_get : (Sys.push s a).get s.aptrs.length = .ok a :=
  Sys.get_ok_iff.mpr (by unfold Sys.push; simp)

theorem push_linked (hl : a.prmPtr = none) : (Sys.push s a).linked = s.linked := by
  refine linked_append _ fun o ho => ?_
  cases List.mem_singleton.mp ho
  rw [Option.bind_some, Aptr.linkedPage?, hl]
  rfl

theorem Ready.push (hG : G.Correct) (h : Ready cfg G s) (hl : a.prmPtr = none) (hb : a.basePageIndex < 524288) :
    Ready cfg G (Sys.push s a) := by
  have hw : (Sys.push s a).Within cfg :=
    within_iff.mpr ((within_iff.mp h.within).congr (push_linked hl))
  exact ⟨Move.good hG h.good hw (.add hl hb), hw⟩

/-- つながりを変えない操作。 -/
theorem Ready.step (o : Op) (hG : G.Correct) (h : Ready cfg G s) (hg : Guard cfg s o)
    (hs : s.step cfg G id o = .ok s') (hl : s'.linked = s.linked) : Ready cfg G s' := by
  have hw : s'.Within cfg := within_iff.mpr ((within_iff.mp h.within).congr hl)
  exact ⟨Move.good hG h.good hw (step_move h.good.pinned hg hs), hw⟩

/-- 末尾の `Aptr` を除けば、呼び出しの前と同じページがつながっている。 -/
theorem room_push {ps : List Int} {o : Option Aptr} (hr : RoomFor cfg s ps) (hs : s'.aptrs = s.aptrs ++ [o]) :
    RoomFor cfg (s'.set s.aptrs.length none) ps := by
  refine hr.congr ?_
  have haptrs : (s'.set s.aptrs.length none).aptrs = s.aptrs ++ [none] := by
    unfold Sys.set
    rw [hs, List.set_append_right _ _ (Nat.le_refl _), Nat.sub_self]
    rfl
  have hlink := linked_append (s := s) s'.state (l := [none]) fun o ho => by
    cases List.mem_singleton.mp ho
    rfl
  rw [← hlink]
  unfold Sys.linked
  rw [haptrs]

theorem construct_ok (hG : G.Correct) (h : Ready cfg G s) (hx : 0 ≤ y ∧ y < cfg.poolPages * pageSize) :
    ∃ a, s.step cfg G id (.construct y n) = .ok (Sys.push s a) ∧ Ready cfg G (Sys.push s a) ∧ a.prmPtr = none ∧
      Cursor (Sys.push s a) s.aptrs.length a y := by
  have hpool : (cfg.poolPages : Int) ≤ 524288 := by exact_mod_cast cfg.poolPages_le
  obtain ⟨h₁, h₂⟩ := hx
  unfold pageSize at h₂
  have hbase : int32 (y / pageSize) = y / pageSize := by
    unfold pageSize
    exact int32_of_range (by omega) (by omega)
  have hnonneg : 0 ≤ y / (pageSize : Int) := by unfold pageSize; omega
  let a : Aptr := ⟨none, -1, y % pageSize + pageSize, false, int32 (y / pageSize), n⟩
  have hc : Aptr.construct y n = .ok a := by
    unfold Aptr.construct
    rw [if_pos (by rw [hbase]; exact hnonneg)]
  refine ⟨a, bind_ok_iff.mpr ⟨a, hc, rfl⟩, h.push hG rfl ?_, rfl, push_get, ?_, ?_, ?_⟩
  · show int32 (y / pageSize) < 524288
    rw [hbase]
    unfold pageSize
    omega
  · show 0 ≤ int32 (y / pageSize)
    rw [hbase]
    exact hnonneg
  · show (int32 (y / pageSize) + -1) * pageSize + (y % pageSize + pageSize) = y
    rw [hbase]
    unfold pageSize
    omega
  · intro _
    show isValid (y % pageSize + pageSize) = false
    rw [← Bool.not_eq_true, isValid_iff]
    unfold pageSize
    omega

/-- 構築したばかりの `Aptr`。 -/
theorem construct_aptr (h : s.step cfg G id (.construct y n) = .ok (Sys.push s a)) :
    a.hintWrite = false ∧ a.offset = y % pageSize + pageSize := by
  obtain ⟨b, hb, hpush⟩ := bind_ok_iff.mp h
  have hab : b = a := by
    have haptrs : s.aptrs ++ [some b] = s.aptrs ++ [some a] := congrArg Sys.aptrs (Except.ok.inj hpush)
    exact Option.some.inj (List.singleton_inj.mp (List.append_cancel_left haptrs))
  subst hab
  unfold Aptr.construct at hb
  dsimp only at hb
  split at hb
  · cases hb
    exact ⟨rfl, rfl⟩
  · cases hb

theorem hint_ok {w : Bool} (hG : G.Correct) (h : Ready cfg G s) (hc : Cursor s d a y) :
    ∃ s', s.step cfg G id (.hint d w) = .ok s' ∧ Ready cfg G s' ∧ s'.state = s.state ∧
      s'.aptrs = s.aptrs.set d (some { a with hintWrite := w }) ∧ Cursor s' d { a with hintWrite := w } y := by
  refine ⟨s.set d (some { a with hintWrite := w }), bind_ok_iff.mpr ⟨a, hc.get, rfl⟩, h.edit hG hc.get rfl rfl rfl,
    rfl, rfl, ?_, hc.base, hc.addr, hc.biased⟩
  exact Sys.get_ok_iff.mpr (get_of_aptrs (o := some { a with hintWrite := w }) hc.get rfl)

theorem destroy_eq (hp : s.Pinned cfg) (ha : s.get d = .ok a) : s.step cfg G id (.destroy d) =
    .ok (Sys.set { s with state := s.state.unlink a.linkedPage? } d none) := by
  have hreset := hp.reset_eq ha
  exact bind_ok_iff.mpr ⟨a, ha, bind_ok_iff.mpr ⟨_, hreset, rfl⟩⟩

theorem destroy_ok (hG : G.Correct) (h : Ready cfg G s) (ha : s.get d = .ok a) :
    ∃ s', s.step cfg G id (.destroy d) = .ok s' ∧ Ready cfg G s' ∧ s'.aptrs = s.aptrs.set d none ∧
      s'.state.trace = s.state.trace := by
  refine ⟨_, destroy_eq h.good.pinned ha, ?_, rfl, rfl⟩
  have hroom := within_iff.mp h.within
  rw [← set_self ha, roomFor_set ha] at hroom
  have hw : (Sys.set { s with state := s.state.unlink a.linkedPage? } d none).Within cfg :=
    within_iff.mpr ((hroom.sublist (List.nil_sublist _)).congr rfl)
  exact ⟨Move.good hG h.good hw (.release ha fun _ hb => nomatch hb), hw⟩

/-- 一つの局所の `Aptr` を使い終えて戻る。 -/
theorem leave (hG : G.Correct) (h : Ready cfg G s') (hs : s'.aptrs = s.aptrs ++ [some a]) :
    ∃ s₃, s'.step cfg G id (.destroy s.aptrs.length) = .ok s₃ ∧ Ready cfg G s₃ ∧ s₃.linked = s.linked ∧
      s₃.state.trace = s'.state.trace ∧ s₃.aptrs = s.aptrs ++ [none] := by
  have ha : s'.get s.aptrs.length = .ok a := Sys.get_ok_iff.mpr (by rw [hs]; simp)
  obtain ⟨s₃, hstep, hr, haptrs, htrace⟩ := destroy_ok hG h ha
  rw [hs, List.set_append_right _ _ (Nat.le_refl _), Nat.sub_self] at haptrs
  refine ⟨s₃, hstep, hr, ?_, htrace, haptrs⟩
  have hlink := linked_append (s := s) s₃.state (l := [none]) fun o ho => by
    cases List.mem_singleton.mp ho
    rfl
  rw [← hlink]
  unfold Sys.linked
  rw [haptrs]
  rfl

end Eleos.Libc
