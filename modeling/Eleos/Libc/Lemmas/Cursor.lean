import Eleos.Libc.Session
import Eleos.Pager.Lemmas.Coherence

/-!
# 一つの `Aptr` を通した読み書き

`deref` で枠を得て、その枠のページの中のいくつかのバイトを読み書きするまでを、一つの補題にまとめる。
-/

namespace Eleos.Libc

open Pager

variable {cfg : Config} {G : Gcm} {s s' : Sys} {a : Aptr} {d i : Nat} {y p : Int}

/-! ## つながっているページ -/

theorem aptrs_self (ha : s.get d = .ok a) : s.aptrs.set d (some a) = s.aptrs := by
  obtain ⟨hd, he⟩ := List.getElem?_eq_some_iff.mp (Sys.get_ok_iff.mp ha)
  rw [← he, List.set_getElem_self]

theorem set_self (ha : s.get d = .ok a) : s.set d (some a) = s := by
  unfold Sys.set
  rw [aptrs_self ha]

theorem linked_set (ha : s.get d = .ok a) (o : Option Aptr) :
    (s.set d o).linked.Perm ((o.bind Aptr.linkedPage?).toList ++ (s.set d none).linked) := by
  have hd := (List.getElem?_eq_some_iff.mp (Sys.get_ok_iff.mp ha)).1
  unfold Sys.linked Sys.set
  dsimp only
  rw [List.set_eq_take_append_cons_drop, List.set_eq_take_append_cons_drop, if_pos hd, if_pos hd,
    List.filterMap_append, List.filterMap_append]
  cases ho : o.bind Aptr.linkedPage? with
  | none =>
      rw [List.filterMap_cons_none (a := o) ho, List.filterMap_cons_none (a := none) rfl]
      exact List.Perm.refl _
  | some q =>
      rw [List.filterMap_cons_some (a := o) ho, List.filterMap_cons_none (a := none) rfl]
      exact List.perm_middle

theorem roomFor_set (ha : s.get d = .ok a) {o : Option Aptr} {ps : List Int} :
    RoomFor cfg (s.set d o) ps ↔ RoomFor cfg (s.set d none) ((o.bind Aptr.linkedPage?).toList ++ ps) := by
  have hperm := linked_set ha o
  have hcount (p : Int) : (s.set d o).linkedCount p =
      (o.bind Aptr.linkedPage?).toList.count p + (s.set d none).linkedCount p := by
    unfold Sys.linkedCount
    rw [hperm.count_eq, List.count_append]
  have hpages : (ps ++ (s.set d o).linked).dedup.length =
      (((o.bind Aptr.linkedPage?).toList ++ ps) ++ (s.set d none).linked).dedup.length := by
    apply List.Perm.length_eq
    apply List.Perm.dedup
    refine (hperm.append_left ps).trans ?_
    rw [← List.append_assoc]
    exact List.perm_append_comm.append_right _
  constructor
  · rintro ⟨h₁, h₂⟩
    refine ⟨fun p => ?_, by rwa [← hpages]⟩
    have := h₁ p
    rw [hcount] at this
    rw [List.count_append]
    omega
  · rintro ⟨h₁, h₂⟩
    refine ⟨fun p => ?_, by rwa [hpages]⟩
    have := h₁ p
    rw [List.count_append] at this
    rw [hcount]
    omega

theorem within_iff : s.Within cfg ↔ RoomFor cfg s [] := by
  constructor
  · exact fun h => ⟨fun p => by rw [List.count_nil]; exact h.links p, h.pages⟩
  · exact fun h => ⟨fun p => h.links p, h.pages⟩

/-- つながりとつなぐページの個数が少なければ、余地がある。 -/
theorem roomFor_few {ps : List Int} {m n : Nat} (hps : ps.length = m) (hl : s.linked.length = n) (hle : m + n ≤ 255)
    (hcap : maxNumOfThreadsOptimization + (m + n) < cfg.cacheCapacity) : RoomFor cfg s ps := by
  refine ⟨fun p => ?_, ?_⟩
  · have h₁ := List.count_le_length (a := p) (l := ps)
    have h₂ := List.count_le_length (a := p) (l := s.linked)
    unfold Sys.linkedCount
    omega
  · have hlen := (List.dedup_sublist (ps ++ s.linked)).length_le
    rw [List.length_append] at hlen
    omega

theorem RoomFor.sublist {ps qs : List Int} (h : RoomFor cfg s qs) (hs : ps.Sublist qs) : RoomFor cfg s ps := by
  refine ⟨fun p => ?_, ?_⟩
  · have h₁ := h.links p
    have h₂ := hs.count_le p
    omega
  · have hle : (ps ++ s.linked).dedup.length ≤ (qs ++ s.linked).dedup.length := by
      apply (List.subperm_of_subset (List.nodup_dedup _) ?_).length_le
      intro x hx
      rw [List.mem_dedup] at hx ⊢
      exact (hs.append_right _).subset hx
    have := h.pages
    omega

theorem RoomFor.congr {ps : List Int} (h : RoomFor cfg s ps) (hs : s'.linked = s.linked) : RoomFor cfg s' ps := by
  refine ⟨fun p => ?_, by rw [hs]; exact h.pages⟩
  unfold Sys.linkedCount
  rw [hs]
  exact h.links p

/-! ## 不変条件 -/

/-- 呼び出しの間も保たれる条件。 -/
structure Ready (cfg : Config) (G : Gcm) (s : Sys) : Prop where
  good : s.Good cfg G
  within : s.Within cfg

/-- オブジェクト `d` の `Aptr` が番地 `y` を指し、参照をたどってよい。 -/
structure Cursor (s : Sys) (d : Nat) (a : Aptr) (y : Int) : Prop where
  get : s.get d = .ok a
  base : 0 ≤ a.basePageIndex
  addr : a.addr = y
  biased : a.prmPtr = none → isValid a.offset = false

theorem Cursor.derefable (h : Cursor s d a y) (hp : InPool cfg y 1) : a.Derefable cfg := by
  have h₁ := hp.lo
  have h₂ := hp.hi
  exact ⟨h.base, by rw [h.addr]; exact h₁, by rw [h.addr]; omega, h.biased⟩

theorem Cursor.target (h : Cursor s d a y) : a.target = y / pageSize := by
  unfold Aptr.target
  rw [h.addr]

theorem Cursor.slotAddr_eq (h : Cursor s d a y) : slotAddr cfg a i = cfg.slot i + (y % pageSize).toNat := by
  have hy := h.addr
  unfold slotAddr
  unfold Aptr.addr pageSize at hy
  have : a.offset % (pageSize : Int) = y % (pageSize : Int) := by
    unfold pageSize
    omega
  rw [this]

theorem linkTo_addr : (a.linkTo i).addr = a.addr := by
  have h := Aptr.target_eq a
  unfold Aptr.addr Aptr.linkTo Aptr.normal pageSize at *
  dsimp only at *
  omega

theorem get_of_aptrs {o : Option Aptr} (ha : s.get d = .ok a) (hs : s'.aptrs = s.aptrs.set d o) :
    s'.aptrs[d]? = some o := by
  rw [hs, List.getElem?_set_self]
  exact (List.getElem?_eq_some_iff.mp (Sys.get_ok_iff.mp ha)).1

/-! ## `deref` -/

/-- 番地 `y` の `deref` のあとの状態。`d` は枠 `i` につながる。 -/
structure Touched (cfg : Config) (G : Gcm) (s : Sys) (d : Nat) (a : Aptr) (y : Int) (s' : Sys) (i : Nat) : Prop where
  ready : Ready cfg G s'
  aptrs : s'.aptrs = s.aptrs.set d (some (a.linkTo i))
  resident : s'.state.l1.get (y / pageSize) = some ⟨y / pageSize, i⟩
  tagged : a.hintWrite = true → tagBit (s'.state.epcArr i) = true
  kept : ∀ q it, s.state.l1.get q = some it → s'.state.l1.refCount q ≠ 0 → tagBit (s.state.epcArr it.epc) = true →
    tagBit (s'.state.epcArr it.epc) = true
  trace : ∃ l, s'.state.trace = l ++ s.state.trace ∧ ∀ ev ∈ l, ev.Paging

theorem tagBit_mark {t : State} {w : Bool} {j : Nat} (h : tagBit (t.epcArr j) = true) :
    tagBit ((t.mark i w).epcArr j) = true := by
  cases w with
  | false => exact h
  | true =>
      by_cases hj : j = i
      · subst hj
        simp [State.mark]
      · simpa [State.mark, hj] using h

theorem Cursor.touch_ok (hG : G.Correct) (h : Ready cfg G s) (hc : Cursor s d a y) (hp : InPool cfg y 1)
    (hr : RoomFor cfg (s.set d none) [y / pageSize]) : ∃ s' i,
      touch cfg G s d = .ok (s', a.linkTo i, cfg.slot i + (y % pageSize).toNat) ∧ Touched cfg G s d a y s' i := by
  have hd := hc.derefable hp
  obtain ⟨t, i, hf⟩ := fetch_progress hG h.good h.within hc.get hd
  have hder : deref cfg G id s.state a = .ok (t.mark i a.hintWrite, a.linkTo i, slotAddr cfg a i) :=
    (h.good.pinned.deref_ok_iff hc.get hd).mpr ⟨t, i, hf, rfl, rfl, rfl⟩
  have hw : (s.fetched d a t i).Within cfg := by
    have hset : RoomFor cfg (s.set d (some (a.linkTo i))) [] := by
      rw [roomFor_set hc.get, Option.bind_some, Aptr.linkTo_linkedPage?, hc.target]
      exact hr
    exact within_iff.mpr (hset.congr rfl)
  obtain ⟨hgood, hget, hl⟩ := hf.good hG h.good hc.get hd hw
  rw [hc.slotAddr_eq] at hder
  rw [hc.target] at hget
  refine ⟨s.fetched d a t i, i, ?_, ⟨hgood, hw⟩, rfl, hget, ?_, ?_, hl⟩
  · exact bind_ok_iff.mpr ⟨a, hc.get, bind_ok_iff.mpr ⟨_, hder, rfl⟩⟩
  · intro hh
    simp [Sys.fetched, Sys.set, State.mark, hh]
  · intro q it hq hz ht
    have hz' : t.l1.refCount q ≠ 0 := by
      simp only [Sys.fetched, Sys.set, State.mark_l1] at hz
      exact hz
    exact tagBit_mark (hf.tag h.good.wf hq hz' ht)

/-- 参照をたどったあとも、同じ番地を指す。 -/
theorem Touched.cursor (hc : Cursor s d a y) (h : Touched cfg G s d a y s' i) : Cursor s' d (a.linkTo i) y where
  get := Sys.get_ok_iff.mpr (get_of_aptrs hc.get h.aptrs)
  base := hc.base
  addr := linkTo_addr.trans hc.addr
  biased := fun hn => nomatch hn

/-! ## 枠の中のバイト -/

/-- `M` の番地 `y` から `vs` を書いたもの。 -/
def overlay (M : Int → Option UInt8) (y : Int) (vs : List UInt8) (x : Int) : Option UInt8 :=
  if y ≤ x ∧ x < y + vs.length then vs[(x - y).toNat]? else M x

theorem overlay_inside {M : Int → Option UInt8} {k : Nat} (hk : k < vs.length) :
    overlay M y vs (y + (k : Nat)) = vs[k]? := by
  unfold overlay
  rw [if_pos ⟨by omega, by omega⟩, show (y + (k : Int) - y).toNat = k by omega]

theorem overlay_outside {M : Int → Option UInt8} {x : Int} (hx : ¬ Range y vs.length x) : overlay M y vs x = M x :=
  if_neg hx

theorem overlay_nil (M : Int → Option UInt8) (y : Int) : overlay M y [] = M := by
  funext x
  unfold overlay
  rw [if_neg (by simp only [List.length_nil]; omega)]

theorem overlay_cons (M : Int → Option UInt8) (y : Int) (v : UInt8) (vs : List UInt8) :
    overlay (Function.update M y (some v)) (y + 1) vs = overlay M y (v :: vs) := by
  funext x
  unfold overlay
  rw [List.length_cons]
  by_cases hx : x = y
  · subst hx
    rw [if_neg (by omega), if_pos (by omega), Function.update_self, Int.sub_self]
    rfl
  · rw [Function.update_of_ne hx]
    by_cases hin : y + 1 ≤ x ∧ x < y + 1 + vs.length
    · rw [if_pos hin, if_pos (by omega), show (x - y).toNat = (x - (y + 1)).toNat + 1 by omega]
      rfl
    · rw [if_neg hin, if_neg (by omega)]

theorem overlay_append (M : Int → Option UInt8) (y : Int) (us vs : List UInt8) :
    overlay (overlay M y us) (y + us.length) vs = overlay M y (us ++ vs) := by
  induction us generalizing M y with
  | nil => rw [overlay_nil, List.length_nil, List.nil_append]; simp
  | cons u us ih =>
      rw [← overlay_cons, List.cons_append, ← overlay_cons, ← ih, List.length_cons]
      congr 1
      omega

@[simp] theorem storeBytes_l1 (t : State) (x : Nat) (vs : List UInt8) : (storeBytes t x y vs).l1 = t.l1 := by
  induction vs generalizing t x y with
  | nil => rfl
  | cons v vs ih => exact ih _ _

@[simp] theorem storeBytes_epcArr (t : State) (x : Nat) (vs : List UInt8) :
    (storeBytes t x y vs).epcArr = t.epcArr := by
  induction vs generalizing t x y with
  | nil => rfl
  | cons v vs ih => exact ih _ _

/-- 続けて書いたあとの状態は、その範囲のほかでは変わらない。 -/
theorem storeBytes_state (t : State) (x : Nat) (y : Int) (vs : List UInt8) : ∃ m l,
    storeBytes t x y vs = { t with epc := m, trace := l } ∧ ∀ z, z < x ∨ x + vs.length ≤ z → m z = t.epc z := by
  induction vs generalizing t x y with
  | nil => exact ⟨t.epc, t.trace, rfl, fun _ _ => rfl⟩
  | cons v vs ih =>
      obtain ⟨m, l, hst, hm⟩ := ih { t with epc := Function.update t.epc x v, trace := .write y v :: t.trace } (x + 1) (y + 1)
      refine ⟨m, l, hst, ?_⟩
      intro z hz
      rw [List.length_cons] at hz
      rw [hm z (by omega)]
      exact Function.update_of_ne (by omega) _ _

theorem loadBytes_state (t : State) (x n : Nat) : ∃ l, (loadBytes t x y n).1 = { t with trace := l } := by
  induction n generalizing t x y with
  | zero => exact ⟨t.trace, rfl⟩
  | succ n ih =>
      obtain ⟨l, hl⟩ := ih (t := { t with trace := .read y (t.epc x) :: t.trace }) (x := x + 1) (y := y + 1)
      exact ⟨l, hl⟩

theorem Touches.mono {R R' : Int → Prop} {ev : Event} (h : Touches R ev) (hR : ∀ x, R x → R' x) : Touches R' ev := by
  cases ev with
  | read x w => exact hR x h
  | write x w => exact hR x h
  | evict q e => trivial
  | load q e f c => trivial

theorem Touches.of_paging {R : Int → Prop} {ev : Event} (h : ev.Paging) : Touches R ev := by
  cases ev with
  | read x w => exact h.elim
  | write x w => exact h.elim
  | evict q e => trivial
  | load q e f c => trivial

theorem range_head {y : Int} {n : Nat} : Range y (n + 1) y := ⟨Int.le_refl _, by push_cast; omega⟩

theorem Range.take {y x : Int} {m n : Nat} (h : Range y m x) (hm : m ≤ n) : Range y n x := by
  have h₂ := h.2
  exact ⟨h.1, by omega⟩

/-- 途中から始まる部分の範囲。 -/
theorem Range.sub {y x k : Int} {m n : Nat} (h : Range (y + k) m x) (h₀ : 0 ≤ k) (hm : k + m ≤ n) : Range y n x := by
  have h₁ := h.1
  have h₂ := h.2
  exact ⟨by omega, by omega⟩

/-- 履歴 `tr` に、範囲 `R` の中だけの読み書きを足すと `tr'` になる。 -/
abbrev Grown (R : Int → Prop) (tr tr' : List Event) : Prop := ∃ l, tr' = l ++ tr ∧ ∀ ev ∈ l, Touches R ev

theorem Grown.refl {R : Int → Prop} {tr : List Event} : Grown R tr tr := ⟨[], rfl, fun _ hev => nomatch hev⟩

theorem Grown.read {R : Int → Prop} {tr : List Event} {x : Int} {w : UInt8} (h : R x) :
    Grown R tr (.read x w :: tr) :=
  ⟨[.read x w], rfl, fun _ hev => List.mem_singleton.mp hev ▸ h⟩

theorem Grown.write {R : Int → Prop} {tr : List Event} {x : Int} {w : UInt8} (h : R x) :
    Grown R tr (.write x w :: tr) :=
  ⟨[.write x w], rfl, fun _ hev => List.mem_singleton.mp hev ▸ h⟩

theorem Grown.mono {R R' : Int → Prop} {tr tr' : List Event} (h : Grown R tr tr') (hR : ∀ x, R x → R' x) :
    Grown R' tr tr' := by
  obtain ⟨l, hl, hacc⟩ := h
  exact ⟨l, hl, fun ev hev => (hacc ev hev).mono hR⟩

theorem Grown.trans {R : Int → Prop} {tr tr' tr'' : List Event} (h : Grown R tr tr') (h' : Grown R tr' tr'') :
    Grown R tr tr'' := by
  obtain ⟨l, hl, hacc⟩ := h
  obtain ⟨l', hl', hacc'⟩ := h'
  refine ⟨l' ++ l, by rw [hl', hl, List.append_assoc], ?_⟩
  intro ev hev
  rcases List.mem_append.mp hev with hev | hev
  · exact hacc' ev hev
  · exact hacc ev hev

/-- ページの出し入れだけを足した履歴。 -/
theorem Grown.of_paging {R : Int → Prop} {tr tr' : List Event} (h : ∃ l, tr' = l ++ tr ∧ ∀ ev ∈ l, ev.Paging) :
    Grown R tr tr' := by
  obtain ⟨l, hl, hp⟩ := h
  exact ⟨l, hl, fun ev hev => .of_paging (hp ev hev)⟩

/-- 枠にあって変更の印のあるページの中に、続けて書く。 -/
theorem storeBytes_good (vs : List UInt8) {o : Nat} (h : s.Good cfg G) (hg : s.state.l1.get p = some ⟨p, i⟩)
    (ht : tagBit (s.state.epcArr i) = true) (ho : o + vs.length ≤ pageSize) :
    let t := storeBytes s.state (cfg.slot i + o) (p * pageSize + o) vs
    Sys.Good cfg G { s with state := t } ∧
      lastWrite t.trace = overlay (lastWrite s.state.trace) (p * pageSize + o) vs ∧
      Grown (Range (p * pageSize + o) vs.length) s.state.trace t.trace := by
  induction vs generalizing s o with
  | nil => exact ⟨h, (overlay_nil _ _).symm, .refl⟩
  | cons v vs ih =>
      rw [List.length_cons] at ho
      have h₁ := h.noteWrite (o := ⟨o, by omega⟩) (v := v) hg ht
      obtain ⟨hgood, hlast, hacc⟩ := ih (o := o + 1) h₁ hg ht (by omega)
      have hy : p * (pageSize : Int) + ((o + 1 : Nat) : Int) = p * pageSize + o + 1 := by push_cast; ring
      rw [hy, ← Nat.add_assoc] at hgood hlast hacc
      refine ⟨hgood, ?_, ?_⟩
      · rw [← overlay_cons]
        refine hlast.trans ?_
        rw [lastWrite_write]
        rfl
      · rw [List.length_cons]
        exact (Grown.write range_head).trans (hacc.mono fun _ hx => hx.sub (by omega) (by push_cast; omega))

theorem loadBytes_bytes (t : State) (x n : Nat) :
    (loadBytes t x y n).2 = (List.range n).map fun k => t.epc (x + k) := by
  induction n generalizing t x y with
  | zero => rfl
  | succ n ih =>
      rw [List.range_succ_eq_map, List.map_cons, List.map_map]
      refine congrArg (t.epc x :: ·) ((ih _ _).trans ?_)
      refine List.map_congr_left fun k _ => ?_
      show t.epc (x + 1 + k) = t.epc (x + (k + 1))
      rw [Nat.add_assoc, Nat.add_comm 1 k]

/-- 枠にあるページの中を、続けて読む。 -/
theorem loadBytes_good {o n : Nat} (h : s.Good cfg G) (hg : s.state.l1.get p = some ⟨p, i⟩) (ho : o + n ≤ pageSize) :
    let t := (loadBytes s.state (cfg.slot i + o) (p * pageSize + o) n).1
    Sys.Good cfg G { s with state := t } ∧ lastWrite t.trace = lastWrite s.state.trace ∧
      Grown (Range (p * pageSize + o) n) s.state.trace t.trace := by
  induction n generalizing s o with
  | zero => exact ⟨h, rfl, .refl⟩
  | succ n ih =>
      have h₁ := h.noteRead (o := ⟨o, by omega⟩) hg
      obtain ⟨hgood, hlast, hacc⟩ := ih (o := o + 1) h₁ hg (by omega)
      have hy : p * (pageSize : Int) + ((o + 1 : Nat) : Int) = p * pageSize + o + 1 := by push_cast; ring
      rw [hy, ← Nat.add_assoc] at hgood hlast hacc
      exact ⟨hgood, hlast, (Grown.read range_head).trans (hacc.mono fun _ hx => hx.sub (by omega) (by push_cast; omega))⟩

/-- 枠にあるページの書き込み済みのバイトは、枠の中にある。 -/
theorem resident_byte {o : Nat} {w : UInt8} (h : s.Good cfg G) (hg : s.state.l1.get p = some ⟨p, i⟩)
    (ho : o < pageSize) (hw : lastWrite s.state.trace (p * pageSize + o) = some w) :
    s.state.epc (cfg.slot i + o) = w := by
  have hbyte := h.holds.resident p _ ⟨o, ho⟩ w hg hw
  dsimp only at hbyte
  exact hbyte

end Eleos.Libc
