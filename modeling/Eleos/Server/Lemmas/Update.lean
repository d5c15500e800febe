import Eleos.Pager.Lemmas.Evict
import Eleos.Pager.Lemmas.Placement
import Eleos.Server.Lemmas.Suvm
import Eleos.Server.Update

/-!
# `HashMap::add` と追い出しの前後

`add` の書き込みを除けば不変条件が成り立つ。書き込んだページに変更の印があれば、書き込みのあとも成り立つ。
-/

namespace Eleos.Server

open Pager Libc

variable {cfg : Config} {G : Gcm} {s s₀ s' : Sys} {t : Nat → Item} {a : Aptr} {d i n : Nat} {x y p : Int} {it : Item}
  {c : Page} {vs : List UInt8}

/-! ## 表のページにつながる `Aptr` -/

/-- 表のページにつながる `Aptr` の枠には、変更の印がある。 -/
def Anchored (s : Sys) (x : Int) (n : Nat) : Prop :=
  ∀ b j, some b ∈ s.aptrs → b.prmPtr = some j → x / pageSize ≤ b.basePageIndex + b.page →
    (b.basePageIndex + b.page) * pageSize < x + n * 16 → tagBit (s.state.epcArr j) = true

theorem Anchored.steady (h : Anchored s x n) (hs : Steady s s') : Anchored s' x n := by
  intro b j hb hj hlo hhi
  exact hs.tags b j (hs.aptrs b hb) hj (h b j (hs.aptrs b hb) hj hlo hhi)

/-- 変更の印のない表のページは、参照されていない。 -/
theorem Anchored.unlinked (h : Anchored s x n) (hr : Ready cfg G s) (hg : s.state.l1.get p = some ⟨p, i⟩)
    (ht : tagBit (s.state.epcArr i) = false) (hlo : x / pageSize ≤ p) (hhi : p * pageSize < x + n * 16) :
    s.state.l1.refCount p = 0 := by
  have hcount : s.linkedCount p = 0 := by
    refine List.count_eq_zero.mpr fun hmem => ?_
    obtain ⟨o, ho, hlink⟩ := List.mem_filterMap.mp hmem
    obtain ⟨b, rfl, hb⟩ := Option.bind_eq_some_iff.mp hlink
    obtain ⟨j, hj, rfl⟩ := Option.map_eq_some_iff.mp hb
    have hget := hr.good.links b j ho hj
    rw [hg] at hget
    cases hget
    rw [h b i ho hj hlo hhi] at ht
    cases ht
  rw [hr.good.pinned.count p, hcount]
  rfl

/-! ## 追い出し -/

theorem evict_ok (hG : G.Correct) (h : Ready cfg G s) : ∃ u, evict G s = .ok { s with state := u } ∧
    Ready cfg G { s with state := u } ∧ lastWrite u.trace = lastWrite s.state.trace ∧ Steady s { s with state := u } := by
  unfold evict
  cases hscan : s.state.l1.getPageIndexToEvict with
  | error e => exact ⟨s.state, rfl, h, rfl, ⟨fun _ hb => hb, fun _ _ _ _ ht => ht⟩⟩
  | ok r =>
      obtain ⟨it, l1⟩ := r
      obtain ⟨hit, hz, -⟩ := PageCache.getPageIndexToEvict_ok hscan
      obtain ⟨it', l1', u, hscan', hev⟩ := evict_progress hG h.good.wf ((h.good.wf.queued _).mpr ⟨it, hit⟩) hz
      cases hscan.symm.trans hscan'
      have hr := evict_room h.good.wf hscan hev
      obtain ⟨l, hl, hp⟩ := hr.trace
      refine ⟨u, bind_ok_iff.mpr ⟨u, hev, rfl⟩, ⟨hr.good hG h.good h.within, h.within.links, h.within.pages⟩, ?_,
        fun _ hb => hb, fun b j hb hj ht => ?_⟩
      · rw [hl, lastWrite_append hp]
      · exact hr.tag h.good.wf (h.good.links b j hb hj) (h.good.pinned.refCount_ne_zero h.within hb hj) ht

theorem Serving.evict (hG : G.Correct) (h : Serving cfg G x n t s) : ∃ s', Server.evict G s = .ok s' ∧
    Serving cfg G x n t s' ∧ Steady s s' ∧ s'.aptrs = s.aptrs := by
  obtain ⟨u, hrun, hr, hlast, hsteady⟩ := evict_ok hG h.ready
  refine ⟨_, hrun, ⟨hr, fun q => (h.room q).congr rfl, fun i hi => ?_⟩, hsteady, rfl⟩
  show Stored (lastWrite u.trace) _ _
  rw [hlast]
  exact h.stored i hi

/-- 追い出しを繰り返せば、変更の印も参照もないページは枠から外れる。 -/
theorem flush (hG : G.Correct) (h : s.state.Idle cfg G p i c) : ∃ m s',
    suvmRequests cfg G x n (List.replicate m .evict) s = .ok s' ∧ s'.state.l1.get p = none ∧ s'.state.Backed G p c := by
  obtain ⟨k, hk⟩ : ∃ k, s.state.l1.pageCacheSize ≤ k := ⟨_, Nat.le_refl _⟩
  induction k generalizing s with
  | zero =>
      have := List.length_pos_of_mem ((h.wf.queued p).mpr ⟨_, h.resident⟩)
      rw [← h.wf.size] at this
      omega
  | succ k ih =>
      obtain ⟨jt, l1, u, hscan, hev, hb, hnext⟩ := h.evict hG
      have hone : Server.evict G s = .ok { s with state := u } := by
        unfold Server.evict
        rw [hscan]
        exact bind_ok_iff.mpr ⟨u, hev, rfl⟩
      rcases hnext with hnone | ⟨hidle, hlt⟩
      · exact ⟨1, _, bind_ok_iff.mpr ⟨_, hone, rfl⟩, hnone, hb⟩
      · obtain ⟨m, s', hrun, hnone, hb'⟩ := ih (s := { s with state := u }) hidle (by
          show u.l1.pageCacheSize ≤ k
          omega)
        exact ⟨m + 1, s', bind_ok_iff.mpr ⟨_, hone, hrun⟩, hnone, hb'⟩

/-- 一つの追い出しで、参照のないページは枠から外れるか、枠にあるページが一つ減る。 -/
theorem evict_shrinks {m : Nat} (hG : G.Correct) (h : Ready cfg G s) (hz : s.state.l1.refCount p = 0)
    (hm : s.state.l1.get p = none ∨ s.state.l1.pageCacheSize ≤ m + 1) (hrun : Server.evict G s = .ok s') :
    s'.state.l1.refCount p = 0 ∧ (s'.state.l1.get p = none ∨ s'.state.l1.pageCacheSize ≤ m) := by
  unfold Server.evict at hrun
  cases hscan : s.state.l1.getPageIndexToEvict with
  | error e =>
      rw [hscan] at hrun
      cases hrun
      refine ⟨hz, Or.inl ?_⟩
      cases hget : s.state.l1.get p with
      | none => rfl
      | some it =>
          obtain ⟨jt, l1, u, hscan', -⟩ := evict_progress hG h.good.wf ((h.good.wf.queued _).mpr ⟨it, hget⟩) hz
          cases hscan.symm.trans hscan'
  | ok r =>
      obtain ⟨jt, l1⟩ := r
      rw [hscan] at hrun
      obtain ⟨u, hev, hrun⟩ := bind_ok_iff.mp hrun
      cases hrun
      refine ⟨(evict_room h.good.wf hscan hev).frame.refCount ▸ hz, ?_⟩
      obtain hnone | hle := hm
      · exact Or.inl (evict_get_none hscan hev hnone)
      · right
        obtain ⟨-, -, r, rfl⟩ := PageCache.getPageIndexToEvict_ok hscan
        obtain ⟨_, ⟨-, rfl⟩ | ⟨-, e, -, rfl⟩⟩ := tryEvictPage_ok_iff.mp hev
        · exact Nat.sub_le_of_le_add hle
        · exact Nat.sub_le_of_le_add hle

/-- 枠にあるページの数だけ追い出せば、参照のないページは、変更の印があっても枠から外れる。 -/
theorem Serving.vanish {m : Nat} (hG : G.Correct) (h : Serving cfg G x n t s) (ha : Anchored s x n)
    (hz : s.state.l1.refCount p = 0) (hm : s.state.l1.get p = none ∨ s.state.l1.pageCacheSize ≤ m) :
    ∃ s', suvmRequests cfg G x n (List.replicate m .evict) s = .ok s' ∧ Serving cfg G x n t s' ∧ Anchored s' x n ∧
      s'.state.l1.get p = none := by
  induction m generalizing s with
  | zero =>
      refine ⟨s, rfl, h, ha, ?_⟩
      cases hget : s.state.l1.get p with
      | none => rfl
      | some it =>
          have hle := hm.resolve_left fun hnone => nomatch hget.symm.trans hnone
          have := List.length_pos_of_mem ((h.ready.good.wf.queued p).mpr ⟨it, hget⟩)
          rw [← h.ready.good.wf.size] at this
          omega
  | succ m ih =>
      obtain ⟨s₁, hone, h₁, hst, -⟩ := h.evict hG
      obtain ⟨hz₁, hm₁⟩ := evict_shrinks hG h.ready hz hm hone
      obtain ⟨s', hrun, h', ha', hnone⟩ := ih h₁ (ha.steady hst) hz₁ hm₁
      exact ⟨s', bind_ok_iff.mpr ⟨s₁, hone, hrun⟩, h', ha', hnone⟩

/-! ## `add` の書き込み -/

theorem storeBytes_unlink (u : State) (z : Nat) (o : Option Int) :
    (storeBytes u z y vs).unlink o = storeBytes (u.unlink o) z y vs := by
  induction vs generalizing u z y with
  | nil => rfl
  | cons v vs ih => exact ih _ _

theorem storeBytes_pinned {z : Nat} (h : s.Pinned cfg) :
    Sys.Pinned cfg { s with state := storeBytes s.state z y vs } := by
  obtain ⟨m, l, hst, -⟩ := storeBytes_state s.state z y vs
  rw [hst]
  exact ⟨h.slots, h.store, h.bounded, h.count⟩

/-- 続けて書いたあとの破棄。 -/
theorem destroy_stored {z : Nat} (hp : s.Pinned cfg) (ha : s.get d = .ok a) (h : s.step cfg G id (.destroy d) = .ok s') :
    Sys.step cfg G id { s with state := storeBytes s.state z y vs } (.destroy d) =
      .ok { s' with state := storeBytes s'.state z y vs } := by
  rw [destroy_eq hp ha] at h
  cases h
  rw [destroy_eq (s := { s with state := storeBytes s.state z y vs }) (storeBytes_pinned hp) ha]
  unfold Sys.set
  dsimp only
  rw [storeBytes_unlink]

theorem linkTo_page : (a.linkTo i).basePageIndex + (a.linkTo i).page = a.target :=
  Option.some.inj (Aptr.linkTo_linkedPage? (a := a) (i := i))

/-- `hint_write` の立っていない `deref` は、そのページの変更の印を変えない。 -/
theorem touched_dirty {b : Aptr} {z : Nat} (h : Ready cfg G s) (hc : Cursor s d a y) (hp : InPool cfg y 1)
    (hh : a.hintWrite = false) (hrun : touch cfg G s d = .ok (s', b, z)) (ht : Touched cfg G s d a y s' i) :
    s'.state.Dirty (y / pageSize) ↔ s.state.Dirty (y / pageSize) := by
  have hd := hc.derefable hp
  have hz : s'.state.l1.refCount (y / pageSize) ≠ 0 := by
    have hmem : some (a.linkTo i) ∈ s'.aptrs := Sys.mem_of_get (ht.cursor hc).get
    have := ht.ready.good.pinned.refCount_ne_zero ht.ready.within hmem rfl
    rwa [linkTo_page, hc.target] at this
  obtain ⟨b', hb', hrun⟩ := bind_ok_iff.mp hrun
  cases hc.get.symm.trans hb'
  obtain ⟨⟨u, b'', z'⟩, hder, hrun⟩ := bind_ok_iff.mp hrun
  obtain ⟨u, j, hf, rfl, rfl, rfl⟩ := (h.good.pinned.deref_ok_iff hc.get hd).mp hder
  cases hrun
  rw [hh] at *
  constructor
  · exact hf.dirty h.good.wf
  · rintro ⟨it, hit, htag⟩
    obtain ⟨-, hkeep⟩ := hf.get h.good.wf fun j hj => h.good.links a j (Sys.mem_of_get hc.get) hj
    exact ⟨it, hkeep _ it hit hz, ht.kept _ it hit hz htag⟩

/-- `add` は、書き込みを除けば不変条件を保つ。書き込みは、鍵のあるページの枠に届く。 -/
theorem suvmAdd_run (hG : G.Correct) (h : Serving cfg G x n t s) (hp : Placed cfg s₀ x n)
    (hk : it.key.toNat < n) (hkey : (t it.key.toNat).key = it.key) (hy : x + 16 * (it.key.toNat : Nat) = y) : ∃ g i,
      suvmAdd cfg G s x n it =
        .ok { g with state := storeBytes g.state (cfg.slot i + (y % pageSize).toNat) y it.bytes } ∧
      Serving cfg G x n t g ∧ Steady s g ∧ g.state.l1.get (y / pageSize) = some ⟨y / pageSize, i⟩ ∧
      (g.state.Dirty (y / pageSize) ↔ s.state.Dirty (y / pageSize)) ∧ g.linked = s.linked := by
  obtain ⟨k, rfl⟩ : ∃ k, n = k + 1 := ⟨n - 1, by omega⟩
  have hin : InPool cfg y 1 := hy ▸ hp.range.sub (by omega) (by push_cast; omega)
  have hal : y % 16 = 0 := by
    have := hp.aligned
    unfold pageSize at this
    omega
  have hfit := aligned_fits hal
  obtain ⟨a, hcons, hr₁, hnone, hc⟩ := construct_ok (n := 16) hG h.ready ⟨hin.lo, by have := hin.hi; push_cast at *; omega⟩
  obtain ⟨hh, -⟩ := construct_aptr hcons
  obtain ⟨s₂, i, htouch, ht⟩ := hc.touch_ok hG hr₁ hin (room_push (h.room _) rfl)
  have hold := h.stored _ hk
  rw [hy] at hold
  have hword : ofWordBytes (loadBytes s₂.state (cfg.slot i + (y % pageSize).toNat) y 8).2 = it.key := by
    have hword := Touched.word (w := it.key) (k := 0) (t := s₂.state) (z := y) ht (by push_cast at *; omega) rfl
      fun b hb => by
        rw [Nat.cast_zero, Int.add_zero, ← hkey]
        exact hold.key hb
    rwa [Nat.add_zero] at hword
  have hload := ht.load (n := 8) (by push_cast at *; omega)
  have hedit := hload.edit { a.linkTo i with hintWrite := true } hG hc.get rfl rfl rfl
  have haptrs : (Sys.push s a).aptrs = s.aptrs ++ [some a] := rfl
  have hst : (Sys.push s a).state = s.state := rfl
  obtain ⟨g, hdestroy, hret⟩ := hedit.leave hG haptrs hst
  have hg := Except.ok.inj ((destroy_eq hedit.ready.good.pinned (hedit.get hc.get)).symm.trans hdestroy)
  obtain ⟨e, he⟩ := loadBytes_state (y := y) s₂.state (cfg.slot i + (y % pageSize).toNat) 8
  have hdirty := touched_dirty hr₁ hc hin hh htouch ht
  refine ⟨g, i, ?_, ⟨hret.ready, fun q => (h.room q).congr hret.linked, fun j hj => ?_⟩, ?_, ?_, ?_, hret.linked⟩
  · have haddr : it.key + UInt64.ofNat 0 = it.key := UInt64.add_zero _
    have hhint : Sys.step cfg G id ⟨(loadBytes s₂.state (cfg.slot i + (y % pageSize).toNat) y 8).1, s₂.aptrs⟩
        (.hint s.aptrs.length true) = .ok (Sys.set ⟨(loadBytes s₂.state (cfg.slot i + (y % pageSize).toNat) y 8).1,
          s₂.aptrs⟩ s.aptrs.length (some { a.linkTo i with hintWrite := true })) :=
      bind_ok_iff.mpr ⟨_, hload.get hc.get, rfl⟩
    unfold suvmAdd suvmAddLoop
    rw [haddr, hy]
    refine bind_ok_iff.mpr ⟨_, hcons, bind_ok_iff.mpr ⟨_, htouch, ?_⟩⟩
    dsimp only
    rw [linkTo_addr, hc.addr, if_pos (Or.inl hword)]
    refine bind_ok_iff.mpr ⟨_, hhint, ?_⟩
    exact destroy_stored hedit.ready.good.pinned (hedit.get hc.get) hdestroy
  · rw [hret.last]
    exact h.stored j hj
  · rw [← hg]
    refine .of_touched (s := s) hr₁ rfl rfl ht ?_ ?_
    · unfold Sys.set
      dsimp only
      rw [List.set_set]
    · show ((loadBytes s₂.state (cfg.slot i + (y % pageSize).toNat) y 8).1).epcArr = _
      rw [he]
  · rw [← hg]
    show ((loadBytes s₂.state (cfg.slot i + (y % pageSize).toNat) y 8).1).l1.get _ = _
    rw [he]
    exact ht.resident
  · rw [← hg]
    refine Iff.trans ?_ hdirty
    show State.Dirty (State.unlink (loadBytes s₂.state (cfg.slot i + (y % pageSize).toNat) y 8).1 _) _ ↔ _
    rw [he]
    rfl

/-! ## 書き込みのあと -/

theorem overlay_self {M : Int → Option UInt8} (h : ∀ b < vs.length, M (y + (b : Nat)) = vs[b]?) : overlay M y vs = M := by
  funext z
  unfold overlay
  by_cases hz : y ≤ z ∧ z < y + vs.length
  · rw [if_pos hz, ← h (z - y).toNat (by omega)]
    congr 1
    omega
  · rw [if_neg hz]

/-- 枠にあるページに、いまの値と同じバイトを続けて書く。 -/
theorem storeBytes_same {o : Nat} (h : s.Good cfg G) (hg : s.state.l1.get p = some ⟨p, i⟩) (ho : o + vs.length ≤ pageSize)
    (hM : ∀ b < vs.length, lastWrite s.state.trace (p * pageSize + o + (b : Nat)) = vs[b]?) :
    let t := storeBytes s.state (cfg.slot i + o) (p * pageSize + o) vs
    Sys.Good cfg G { s with state := t } ∧ lastWrite t.trace = lastWrite s.state.trace := by
  induction vs generalizing s o with
  | nil => exact ⟨h, rfl⟩
  | cons v vs ih =>
      rw [List.length_cons] at ho
      have hM₀ := hM 0 (Nat.succ_pos _)
      rw [Nat.cast_zero, Int.add_zero] at hM₀
      have hv : Function.update s.state.epc (cfg.slot i + o) v = s.state.epc :=
        Function.update_eq_self_iff.mpr (resident_byte h hg (by omega) hM₀).symm
      have hlast : lastWrite (.write (p * pageSize + o) v :: s.state.trace) = lastWrite s.state.trace := by
        rw [lastWrite_write]
        exact Function.update_eq_self_iff.mpr hM₀.symm
      let u : State := { s.state with
        epc := Function.update s.state.epc (cfg.slot i + o) v
        trace := .write (p * pageSize + o) v :: s.state.trace }
      have hu : u = { s.state with trace := .write (p * pageSize + o) v :: s.state.trace } :=
        congrArg (fun e => { s.state with epc := e, trace := .write (p * pageSize + o) v :: s.state.trace }) hv
      have hgood : Sys.Good cfg G { s with state := u } := by
        have hh := h.holds
        refine ⟨⟨h.pinned.slots, h.pinned.store, h.pinned.bounded, h.pinned.count⟩, h.wf.withBytes, h.links, ?_,
          h.coherent.cons ?_⟩
        · show State.Holds cfg G (lastWrite (.write (p * pageSize + o) v :: s.state.trace)) u
          rw [hlast, hu]
          exact ⟨hh.entry_range, hh.decrypts, hh.clean, hh.clean_entry, hh.resident, hh.absent⟩
        · rintro x v w ⟨⟩
      have hy : p * (pageSize : Int) + ((o + 1 : Nat) : Int) = p * pageSize + o + 1 := by push_cast; ring
      obtain ⟨hgood', hlast'⟩ := ih (s := { s with state := u }) (o := o + 1) hgood hg (by omega) fun b hb => by
        have := hM (b + 1) (Nat.succ_lt_succ hb)
        show lastWrite (.write (p * pageSize + o) v :: s.state.trace) _ = _
        rw [hlast, hy, Int.add_assoc, Int.add_comm 1]
        exact this
      rw [hy, ← Nat.add_assoc] at hgood' hlast'
      exact ⟨hgood', hlast'.trans hlast⟩

/-- 変更の印のあるページへの書き込みか、同じ項目の書き込みなら、表は項目を一つ替えたものになる。 -/
theorem Serving.store (h : Serving cfg G x n t s) (hp : Placed cfg s₀ x n)
    (hy : x + 16 * (it.key.toNat : Nat) = y) (hk : it.key.toNat < n)
    (hg : s.state.l1.get (y / pageSize) = some ⟨y / pageSize, i⟩)
    (hw : tagBit (s.state.epcArr i) = true ∨ t it.key.toNat = it) :
    Serving cfg G x n (Function.update t it.key.toNat it)
      { s with state := storeBytes s.state (cfg.slot i + (y % pageSize).toNat) y it.bytes } := by
  have hal : y % 16 = 0 := by
    have := hp.aligned
    unfold pageSize at this
    omega
  have hlen : (y % (pageSize : Int)).toNat + it.bytes.length ≤ pageSize := by
    have hfit := aligned_fits hal
    rw [it.bytes_length]
    unfold pageSize at *
    omega
  have hst : Sys.Good cfg G { s with state := storeBytes s.state (cfg.slot i + (y % pageSize).toNat) y it.bytes } ∧
      lastWrite (storeBytes s.state (cfg.slot i + (y % pageSize).toNat) y it.bytes).trace =
        overlay (lastWrite s.state.trace) y it.bytes := by
    rcases hw with htag | heq
    · obtain ⟨hgood, hlast, -⟩ := storeBytes_good it.bytes h.ready.good hg htag hlen
      rw [page_split] at hgood hlast
      exact ⟨hgood, hlast⟩
    · have hM : ∀ b < it.bytes.length, lastWrite s.state.trace (y + (b : Nat)) = it.bytes[b]? := by
        have := h.stored _ hk
        rw [heq, hy] at this
        rw [it.bytes_length]
        exact this
      obtain ⟨hgood, hlast⟩ := storeBytes_same h.ready.good hg hlen (by rw [page_split]; exact hM)
      rw [page_split] at hgood hlast
      exact ⟨hgood, hlast.trans (overlay_self hM).symm⟩
  obtain ⟨hgood, hlast⟩ := hst
  refine ⟨⟨hgood, h.ready.within.links, h.ready.within.pages⟩, fun q => (h.room q).congr rfl, fun j hj => ?_⟩
  rw [hlast]
  by_cases heq : j = it.key.toNat
  · rw [heq, Function.update_self, hy]
    exact .of_overlay
  · rw [Function.update_of_ne heq]
    refine (h.stored j hj).congr fun z hz => overlay_outside fun hx => ?_
    rw [it.bytes_length] at hx
    have h₁ := hz.1
    have h₂ := hz.2
    have h₃ := hx.1
    have h₄ := hx.2
    push_cast at *
    omega

/-! ## 項目のバイト -/

/-- 変更の印のない枠にある項目のバイトは、復号した内容にもある。 -/
theorem Stored.backed (h : s.Good cfg G) (hs : Stored (lastWrite s.state.trace) y it)
    (hg : s.state.l1.get (y / pageSize) = some ⟨y / pageSize, i⟩) (htag : tagBit (s.state.epcArr i) = false) : ∃ c,
      s.state.Backed G (y / pageSize) c ∧
      ∀ b < 16, ∀ o : Fin pageSize, byteAddr (y / pageSize) o = y + (b : Nat) → some (c o) = it.bytes[b]? := by
  have hbyte {b : Nat} (hb : b < 16) : ∃ v, lastWrite s.state.trace (y + (b : Nat)) = some v ∧ it.bytes[b]? = some v := by
    have hv : it.bytes[b]? = some _ := List.getElem?_eq_getElem (by rw [Item.bytes_length]; exact hb)
    exact ⟨_, (hs b hb).trans hv, hv⟩
  obtain ⟨v₀, hv₀, -⟩ := hbyte (b := 0) (by omega)
  rw [Nat.cast_zero, Int.add_zero, ← page_split y] at hv₀
  obtain ⟨e, he⟩ := h.holds.clean_entry (y / pageSize) _ ⟨(y % pageSize).toNat, by unfold pageSize; omega⟩ v₀ hg htag hv₀
  obtain ⟨c, hc⟩ := h.holds.decrypts _ e he
  have hread := h.holds.clean _ _ c hg htag hc
  refine ⟨c, hc, fun b hb o ho => ?_⟩
  obtain ⟨v, hv, hv'⟩ := hbyte hb
  rw [hv', ← hread]
  rw [← ho] at hv
  exact congrArg some (h.holds.resident _ _ o v hg hv)

/-- 枠にないページの項目は、復号した内容から読まれる。 -/
theorem itemAt_of_backed (hn : s.state.l1.get (y / pageSize) = none) (hb : s.state.Backed G (y / pageSize) c)
    (hy : y % 16 = 0) (hc : ∀ b < 16, ∀ o : Fin pageSize, byteAddr (y / pageSize) o = y + (b : Nat) →
      some (c o) = it.bytes[b]?) : itemAt G s y = some it := by
  obtain ⟨z, hz, hdec⟩ := hb
  refine Stored.item fun b hb => ?_
  have hfit := aligned_fits hy
  have hpage : (y + (b : Int)) / (pageSize : Int) = y / pageSize := by
    unfold pageSize at *
    omega
  have ho : ((y + (b : Int)) % (pageSize : Int)).toNat < pageSize := by
    unfold pageSize
    omega
  have haddr : byteAddr (y / pageSize) ⟨_, ho⟩ = y + (b : Nat) := by
    rw [← hpage]
    exact page_split _
  unfold byteAt
  dsimp only
  rw [hpage, hn]
  dsimp only
  rw [hz]
  dsimp only
  rw [hdec, Option.bind_some, dif_pos ho]
  exact hc b hb ⟨_, ho⟩ haddr

end Eleos.Server
