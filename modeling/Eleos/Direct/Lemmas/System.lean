import Eleos.Direct.Lemmas.Fault

/-!
# 部分ページの構成での操作の列

どの操作も、一つのオブジェクトのつながりを外し、必要なら新しいつながりを加える。残りのつながりについての不変条件は、
その間ずっと成り立つ。
-/

namespace Eleos.Direct

open Eleos.Pager (Config Key Nonce Event pageSize lastWrite Coherent)

variable {cfg : Config} {G : Gcm} {s : Sys} {a : Aptr} {o : Obj} {d : Nat} {x : Option Obj}
  {objs : List (Option Obj)}

/-! ## つながりの多重集合 -/

def linksOf (objs : List (Option Obj)) : Multiset Link := ↑(objs.filterMap fun o => o.bind Obj.link?)

theorem links_set (hd : d < objs.length) (x : Option Obj) :
    linksOf (objs.set d x) = withLink (x.bind Obj.link?) (linksOf (objs.set d none)) := by
  have hsplit (y : Option Obj) : linksOf (objs.set d y) =
      ↑((objs.take d).filterMap (fun o => o.bind Obj.link?) ++
        ([y].filterMap (fun o => o.bind Obj.link?) ++ (objs.drop (d + 1)).filterMap fun o => o.bind Obj.link?)) := by
    rw [linksOf, List.set_eq_take_append_cons_drop, if_pos hd, ← List.singleton_append, List.filterMap_append,
      List.filterMap_append]
  rw [hsplit, hsplit]
  cases hx : x.bind Obj.link? with
  | none => simp [withLink, hx]
  | some l =>
      simp only [List.filterMap_cons, hx, List.filterMap_nil, Option.bind_none, List.nil_append, withLink]
      exact Multiset.coe_eq_coe.mpr List.perm_middle

theorem links_push (h : a.prmPtr = none) : linksOf (s.push a).objs = linksOf s.objs := by
  simp [linksOf, Sys.push, Obj.link?, h]

/-- つながりのページは、つながっている `Aptr` のページである。 -/
theorem links_pages (s : Sys) : (linksOf s.objs).map Link.page = (s.linked : Multiset Int) := by
  rw [linksOf, Multiset.map_coe, List.map_filterMap, Sys.linked]
  congr 1
  apply List.filterMap_congr
  intro y _
  cases y with
  | none => rfl
  | some o =>
      cases hp : o.aptr.prmPtr with
      | none => simp [Obj.link?, Pager.Aptr.linkedPage?, hp]
      | some i => simp [Obj.link?, Pager.Aptr.linkedPage?, hp]

theorem Sys.get_ok_iff : s.get d = .ok o ↔ s.objs[d]? = some (some o) := by
  unfold Sys.get
  cases h : s.objs[d]? with
  | none => simp
  | some y =>
      cases y with
      | none => simp
      | some b => simp

theorem Sys.mem_of_get (h : s.get d = .ok o) : some o ∈ s.objs := List.mem_of_getElem? (Sys.get_ok_iff.mp h)

/-- オブジェクト `d` のほかのつながり。 -/
def Sys.others (s : Sys) (d : Nat) : Multiset Link := linksOf (s.objs.set d none)

theorem Sys.links_eq (h : s.get d = .ok o) : linksOf s.objs = withLink o.link? (s.others d) := by
  obtain ⟨hd, ho⟩ := List.getElem?_eq_some_iff.mp (Sys.get_ok_iff.mp h)
  have hset : s.objs.set d (some o) = s.objs := by
    rw [← ho]
    exact List.set_getElem_self hd
  have hl := links_set hd (some o)
  rw [hset] at hl
  exact hl

/-! ## 不変条件 -/

structure Sys.Good (cfg : Config) (G : Gcm) (s : Sys) : Prop where
  core : s.state.Core cfg G (lastWrite s.state.trace) (linksOf s.objs)
  counts : Counts s.state.l1.refCount ((linksOf s.objs).map Link.page)
  objs : ∀ o, some o ∈ s.objs → o.Ok cfg
  coherent : Coherent s.state.trace

theorem Sys.init_good (cfg : Config) (epc pool : Nat → UInt8) (key : Key) (rand : Nat → Nonce) :
    (Sys.init cfg epc pool key rand).Good cfg G where
  core := by
    have hcap : 0 < cfg.cacheCapacity * 10 := by
      have := cfg.capacity_pos
      omega
    have hitems : (State.init cfg epc pool key rand).l1.table.items = 0 := by
      simp [State.init, PageCache.init, Table.items]
    have hget : ∀ p, (State.init cfg epc pool key rand).l1.get p = none := fun _ => rfl
    have hllc : ∀ p k, (State.init cfg epc pool key rand).llc.entry p k = none := fun _ _ => rfl
    refine ⟨⟨fun k => Nat.mod_lt _ hcap, fun b y hy => ?_, fun b => ?_⟩, rfl, ?_, ?_, ?_, ?_, ?_, ?_, ?_, ?_⟩
    · simp [Sys.init, State.init, PageCache.init] at hy
    · simp [Sys.init, State.init, PageCache.init]
    · rw [Sys.init, hitems, Multiset.map_zero, add_zero, State.init, Multiset.range]
      exact Multiset.coe_eq_coe.mpr (List.reverse_perm _)
    · rw [Sys.init, hitems]
      rfl
    · simp [Sys.init, linksOf]
    · simp [Sys.init, hget]
    · simp [Sys.init, hget]
    · simp [Sys.init, hllc]
    · simp [Sys.init, hllc]
    · intro p k _
      exact Or.inr (Or.inr fun _ => rfl)
  counts := by
    intro p
    rfl
  objs := by simp [Sys.init]
  coherent := by
    intro l₁ y v l₂ h
    simp [Sys.init, State.init] at h

/-- オブジェクト `d` を取り替えた状態の不変条件。 -/
theorem Sys.Good.replace {st : State} (h : s.Good cfg G) (hd : d < s.objs.length)
    (hcore : st.Core cfg G (lastWrite st.trace) (withLink (x.bind Obj.link?) (s.others d)))
    (hcounts : Counts st.l1.refCount ((withLink (x.bind Obj.link?) (s.others d)).map Link.page))
    (hx : ∀ o, x = some o → o.Ok cfg) (hcoh : Coherent st.trace) :
    ({ s with state := st }.set d x).Good cfg G := by
  have hl : linksOf ({ s with state := st }.set d x).objs = withLink (x.bind Obj.link?) (s.others d) :=
    links_set hd x
  refine ⟨by rw [hl]; exact hcore, by rw [hl]; exact hcounts, ?_, hcoh⟩
  intro b hb
  rcases List.mem_or_eq_of_mem_set hb with hb | hb
  · exact h.objs b hb
  · exact hx b hb.symm

theorem Sys.Good.push (h : s.Good cfg G) (hp : a.prmPtr = none) (hbase : a.basePageIndex < 524288)
    (hsub : 0 ≤ a.basePageIndex → a.subPageIndex < subPageCount) : (s.push a).Good cfg G := by
  refine ⟨by rw [links_push hp]; exact h.core, by rw [links_push hp]; exact h.counts, ?_, h.coherent⟩
  intro b hb
  rcases List.mem_append.mp hb with hb | hb
  · exact h.objs b hb
  · cases List.mem_singleton.mp hb
    exact ⟨⟨hbase, fun hx => absurd hp hx⟩, hsub, by simp⟩

/-- つながりの変わらない書き換え。 -/
theorem Sys.Good.edit {b : Obj} (h : s.Good cfg G) (hg : s.get d = .ok o) (hl : b.link? = o.link?)
    (hb : b.Ok cfg) : (s.set d (some b)).Good cfg G := by
  have hd : d < s.objs.length := (List.getElem?_eq_some_iff.mp (Sys.get_ok_iff.mp hg)).1
  have hcore := h.core
  have hcounts := h.counts
  rw [Sys.links_eq hg, ← hl] at hcore hcounts
  refine @Sys.Good.replace cfg G s d (some b) s.state h hd hcore hcounts ?_ h.coherent
  rintro c ⟨rfl⟩
  exact hb

theorem Sys.Within.count_le (hw : s.Within cfg) (p : Int) : ((linksOf s.objs).map Link.page).count p ≤ 255 := by
  rw [links_pages, Multiset.coe_count]
  exact hw.links p

theorem Sys.Within.roomy (hw : s.Within cfg) (hg : s.get d = .ok o) : Roomy cfg (s.others d) := by
  have hsub : (s.others d).map Link.page ⊆ (s.linked : Multiset Int) := by
    rw [← links_pages, Sys.links_eq hg]
    cases o.link? with
    | none => exact Multiset.Subset.refl _
    | some l =>
        rw [withLink, Multiset.map_cons]
        exact Multiset.subset_cons _ _
  have hcard : (s.linked : Multiset Int).toFinset.card = s.linked.dedup.length := List.card_toFinset s.linked
  have hle := Finset.card_le_card (Multiset.toFinset_subset.mpr hsub)
  have := hw.pages
  unfold Roomy
  omega

/-! ## 操作 -/

theorem Sys.Good.reset (hG : G.Correct) (h : s.Good cfg G) (hw : s.Within cfg) (hg : s.get d = .ok o) :
    ∃ st, o.aptr.reset cfg G s.state = .ok (st, { o.aptr with basePageIndex := -1, prmPtr := none }) ∧
      ∀ x : Option Obj, (∀ b, x = some b → b.link? = none ∧ b.Ok cfg) →
        ({ s with state := st }.set d x).Good cfg G := by
  have hd : d < s.objs.length := (List.getElem?_eq_some_iff.mp (Sys.get_ok_iff.mp hg)).1
  have hcore := h.core
  have hcounts := h.counts
  have hle := hw.count_le
  rw [Sys.links_eq hg] at hcore hcounts hle
  obtain ⟨st, hreset, hcore', hcounts', htr⟩ := reset_core hG hcore hcounts hle (h.objs o (Sys.mem_of_get hg))
  refine ⟨st, hreset, fun x hx => ?_⟩
  have hl : x.bind Obj.link? = none := by
    cases x with
    | none => rfl
    | some b => exact (hx b rfl).1
  refine h.replace hd ?_ ?_ (fun b hb => (hx b hb).2) (by rw [htr]; exact h.coherent)
  · rw [hl, htr]
    exact hcore'
  · rw [hl]
    exact hcounts'

/-- 参照をたどったあとの状態。 -/
theorem Sys.Good.deref (hG : G.Correct) (h : s.Good cfg G) (hw : s.Within cfg) (hg : s.get d = .ok o)
    (hd : o.aptr.Derefable cfg) :
    ∃ st i, Direct.deref cfg G s.state o.aptr =
        .ok (st, o.aptr.linkTo i, epcAddr cfg i o.aptr.sub + o.aptr.cell) ∧
      st.Core cfg G (lastWrite st.trace)
        (⟨o.aptr.target, i, o.aptr.sub, o.wrote && inSubPage o.aptr⟩ ::ₘ s.others d) ∧
      Counts st.l1.refCount (o.aptr.target ::ₘ (s.others d).map Link.page) ∧ Coherent st.trace := by
  have hcore := h.core
  have hcounts := h.counts
  have hle := hw.count_le
  rw [Sys.links_eq hg] at hcore hcounts hle
  obtain ⟨st, i, hderef, hcore', hcounts', htr⟩ :=
    deref_core hG hcore hcounts hle (h.objs o (Sys.mem_of_get hg)) hd (hw.roomy hg)
  refine ⟨st, i, hderef, ?_, hcounts', by rw [htr]; exact h.coherent⟩
  rw [htr]
  exact hcore'

/-- 参照をたどったオブジェクトのつながり。 -/
theorem Obj.link?_linkTo (i : Nat) (b : Bool) :
    Obj.link? ⟨a.linkTo i, b⟩ = some ⟨a.target, i, a.sub, b⟩ := by
  have hpage : a.basePageIndex + (a.target - a.basePageIndex) = a.target := by omega
  exact congrArg (fun p => some (Link.mk p i a.sub b)) hpage

theorem Obj.Ok.linkTo {b : Bool} (ho : o.Ok cfg) (hd : o.aptr.Derefable cfg) (i : Nat)
    (hb : b = true → o.aptr.hintWrite = true) : Obj.Ok cfg ⟨o.aptr.linkTo i, b⟩ := by
  refine ⟨⟨ho.bounded.base_lt, fun _ => ⟨hd.base, ?_, ?_⟩⟩, fun _ => o.aptr.sub_lt, hb⟩
  · simpa [Aptr.linkTo, Pager.Aptr.linkTo, Pager.Aptr.normal] using hd.target_nonneg
  · simpa [Aptr.linkTo, Pager.Aptr.linkTo, Pager.Aptr.normal] using hd.target_lt

theorem State.Core.withTrace {st : State} {M : Int → Option UInt8} {L : Multiset Link} {tr : List Event}
    (h : st.Core cfg G M L) : State.Core cfg G M L { st with trace := tr } :=
  ⟨h.table, h.store, h.slots, h.size, fun l hl => ⟨(h.fits l hl).range, (h.fits l hl).sub_lt, (h.fits l hl).resident⟩,
    h.cached, h.valid, h.entry_range, h.decrypts, h.backed⟩

/-- つながった部分ページのバイトは、最後に書き込んだ値である。 -/
theorem State.Core.read {st : State} {M : Int → Option UInt8} {l : Link} {R : Multiset Link} {v : UInt8}
    (h : st.Core cfg G M (l ::ₘ R)) (c : Fin subPageSize) (hv : M (cellAddr l.page l.sub c) = some v) :
    st.epc (epcAddr cfg l.slot l.sub + c) = v := by
  have hl := h.fits l (Multiset.mem_cons_self l R)
  obtain ⟨it, hit, hslot, hvalid⟩ := hl.resident
  rw [← hslot]
  exact h.valid l.page it l.sub hit hvalid hl.sub_lt c v hv

theorem step_read (hG : G.Correct) (h : s.Good cfg G) (hw : s.Within cfg) (hg : s.get d = .ok o)
    (hd : o.aptr.Derefable cfg) : ∃ s', s.step cfg G (.read d) = .ok s' ∧ s'.Good cfg G := by
  have hlt : d < s.objs.length := (List.getElem?_eq_some_iff.mp (Sys.get_ok_iff.mp hg)).1
  have ho := h.objs o (Sys.mem_of_get hg)
  obtain ⟨st, i, hderef, hcore, hcounts, hcoh⟩ := h.deref hG hw hg hd
  refine ⟨_, bind_ok_iff.mpr ⟨o, hg, bind_ok_iff.mpr ⟨_, hderef, rfl⟩⟩, ?_⟩
  refine h.replace hlt ?_ ?_ ?_ (hcoh.cons ?_)
  · rw [Option.bind_some, Obj.link?_linkTo]
    exact hcore.withTrace
  · rw [Option.bind_some, Obj.link?_linkTo, withLink, Multiset.map_cons]
    exact hcounts
  · rintro b ⟨rfl⟩
    exact ho.linkTo hd i fun hb => ho.wrote (Bool.and_eq_true_iff.mp hb).1
  · intro y v w hy hlast
    obtain ⟨rfl, rfl⟩ := Event.read.inj hy
    rw [Aptr.addr_eq] at hlast
    exact hcore.read o.aptr.cell hlast

theorem step_write {v : UInt8} (hG : G.Correct) (h : s.Good cfg G) (hw : s.Within cfg) (hg : s.get d = .ok o)
    (hd : o.aptr.Derefable cfg) (hh : o.aptr.hintWrite = true) :
    ∃ s', s.step cfg G (.write d v) = .ok s' ∧ s'.Good cfg G := by
  have hlt : d < s.objs.length := (List.getElem?_eq_some_iff.mp (Sys.get_ok_iff.mp hg)).1
  have ho := h.objs o (Sys.mem_of_get hg)
  obtain ⟨st, i, hderef, hcore, hcounts, hcoh⟩ := h.deref hG hw hg hd
  refine ⟨_, bind_ok_iff.mpr ⟨o, hg, bind_ok_iff.mpr ⟨_, hderef, rfl⟩⟩, ?_⟩
  refine h.replace hlt ?_ ?_ ?_ (hcoh.cons ?_)
  · rw [Option.bind_some, Obj.link?_linkTo, Pager.lastWrite_write, Aptr.addr_eq]
    exact hcore.write o.aptr.cell
  · rw [Option.bind_some, Obj.link?_linkTo, withLink, Multiset.map_cons]
    exact hcounts
  · rintro b ⟨rfl⟩
    exact ho.linkTo hd i fun _ => hh
  · rintro y u w ⟨⟩

theorem step_construct {y : Int} {n : Nat} (h : s.Good cfg G) (hy : 0 ≤ y ∧ y < cfg.poolPages * pageSize) :
    ∃ s', s.step cfg G (.construct y n) = .ok s' ∧ s'.Good cfg G := by
  have hpool : (cfg.poolPages : Int) ≤ 524288 := by exact_mod_cast cfg.poolPages_le
  have hq : y / pageSize < cfg.poolPages := Int.ediv_lt_of_lt_mul (by simp [pageSize]) hy.2
  have hq0 : 0 ≤ y / pageSize := Int.ediv_nonneg hy.1 (by simp [pageSize])
  have hbase : int32 (y / pageSize) = y / pageSize := int32_of_range (by omega) (by omega)
  have hc : Pager.Aptr.construct y n = .ok { prmPtr := none, page := -1, offset := y % pageSize + pageSize, hintWrite := false, basePageIndex := y / pageSize, size := n } := by
    rw [Pager.Aptr.construct, hbase, if_pos hq0]
  refine ⟨_, bind_ok_iff.mpr ⟨_, bind_ok_iff.mpr ⟨_, hc, rfl⟩, rfl⟩, h.push rfl ?_ ?_⟩
  · show y / pageSize < 524288
    omega
  · intro _
    show 0 < subPageCount
    decide

theorem step_assign {src : Nat} {b : Obj} (hG : G.Correct) (h : s.Good cfg G) (hw : s.Within cfg)
    (hg : s.get d = .ok o) (hb : s.get src = .ok b) :
    ∃ s', s.step cfg G (.assign d src) = .ok s' ∧ s'.Good cfg G := by
  have hlt : d < s.objs.length := (List.getElem?_eq_some_iff.mp (Sys.get_ok_iff.mp hg)).1
  obtain ⟨st, hreset, hgood⟩ := h.reset hG hw hg
  let a' : Aptr := { o.aptr with basePageIndex := -1, prmPtr := none }
  -- 写す元は、代入先自身であれば `reset` のあとの値である。
  have hsrc : ∃ c, ({ s with state := st }.set d (some ⟨a', false⟩)).get src = .ok c ∧
      c.aptr.basePageIndex < 524288 := by
    by_cases hds : d = src
    · subst hds
      exact ⟨⟨a', false⟩, Sys.get_ok_iff.mpr (by simp [Sys.set, hlt]), by simp [a']⟩
    · refine ⟨b, Sys.get_ok_iff.mpr ?_, (h.objs b (Sys.mem_of_get hb)).bounded.base_lt⟩
      rw [← Sys.get_ok_iff.mp hb]
      exact List.getElem?_set_ne hds
  obtain ⟨c, hc, hbase⟩ := hsrc
  refine ⟨_, bind_ok_iff.mpr ⟨o, hg, bind_ok_iff.mpr ⟨_, hreset, bind_ok_iff.mpr ⟨c, hc, rfl⟩⟩⟩, ?_⟩
  have hset : (({ s with state := st }.set d (some ⟨a', false⟩)).set d (some ⟨c.aptr.doCopy, false⟩)) =
      { s with state := st }.set d (some ⟨c.aptr.doCopy, false⟩) := by
    simp [Sys.set]
  rw [hset]
  apply hgood
  rintro b' ⟨rfl⟩
  refine ⟨rfl, ⟨hbase, fun hx => absurd rfl hx⟩, fun _ => ?_, by simp⟩
  show 0 < subPageCount
  decide

/-- 前提を満たす操作は成功し、不変条件を保つ。 -/
theorem step_good {op : Op} (hG : G.Correct) (h : s.Good cfg G) (hw : s.Within cfg) (hg : Guard cfg s op) :
    ∃ s', s.step cfg G op = .ok s' ∧ s'.Good cfg G := by
  cases op with
  | construct y n => exact step_construct h hg
  | null junk =>
      refine ⟨_, rfl, h.push rfl ?_ ?_⟩
      · show (-1 : Int) < 524288
        omega
      · intro hx
        have : (0 : Int) ≤ -1 := hx
        omega
  | copy src =>
      obtain ⟨o, ho⟩ := hg
      refine ⟨_, bind_ok_iff.mpr ⟨o, ho, rfl⟩, h.push rfl ?_ ?_⟩
      · exact (h.objs o (Sys.mem_of_get ho)).bounded.base_lt
      · intro _
        show 0 < subPageCount
        decide
  | assign dst src =>
      obtain ⟨⟨o, ho⟩, b, hb⟩ := hg
      exact step_assign hG h hw ho hb
  | move d n k =>
      obtain ⟨o, ho⟩ := hg
      have hok := h.objs o (Sys.mem_of_get ho)
      refine ⟨_, bind_ok_iff.mpr ⟨o, ho, rfl⟩, h.edit ho rfl ?_⟩
      exact ⟨⟨hok.bounded.base_lt, hok.bounded.linked⟩, hok.sub_lt, hok.wrote⟩
  | hint d b =>
      obtain ⟨o, ho, hb⟩ := hg
      have hok := h.objs o (Sys.mem_of_get ho)
      refine ⟨_, bind_ok_iff.mpr ⟨o, ho, rfl⟩, h.edit ho rfl ?_⟩
      exact ⟨⟨hok.bounded.base_lt, hok.bounded.linked⟩, hok.sub_lt, hb⟩
  | read d =>
      obtain ⟨o, ho, hd⟩ := hg
      exact step_read hG h hw ho hd
  | write d v =>
      obtain ⟨o, ho, hd, hh⟩ := hg
      exact step_write hG h hw ho hd hh
  | reset d =>
      obtain ⟨o, ho⟩ := hg
      obtain ⟨st, hreset, hgood⟩ := h.reset hG hw ho
      refine ⟨_, bind_ok_iff.mpr ⟨o, ho, bind_ok_iff.mpr ⟨_, hreset, rfl⟩⟩, hgood _ ?_⟩
      rintro b ⟨rfl⟩
      refine ⟨rfl, ⟨by simp, fun hx => absurd rfl hx⟩, fun hx => ?_, by simp⟩
      have : (0 : Int) ≤ -1 := hx
      omega
  | destroy d =>
      obtain ⟨o, ho⟩ := hg
      obtain ⟨st, hreset, hgood⟩ := h.reset hG hw ho
      exact ⟨_, bind_ok_iff.mpr ⟨o, ho, bind_ok_iff.mpr ⟨_, hreset, rfl⟩⟩, hgood _ fun _ hb => by cases hb⟩

/-- 使い方の条件を満たす操作の列は最後まで進み、不変条件を保つ。 -/
theorem Sys.Good.run {ops : List Op} (hG : G.Correct) (h : s.Good cfg G) (hops : Admissible cfg G s ops) :
    ∃ s', s.run cfg G ops = .ok s' ∧ s'.Good cfg G := by
  induction ops generalizing s with
  | nil => exact ⟨s, rfl, h⟩
  | cons op ops ih =>
      obtain ⟨hw, hg, hnext⟩ := hops
      obtain ⟨s₁, hstep, hgood⟩ := step_good hG h hw hg
      obtain ⟨s', hrun, hs'⟩ := ih hgood (hnext s₁ hstep)
      exact ⟨s', bind_ok_iff.mpr ⟨s₁, hstep, hrun⟩, hs'⟩

end Eleos.Direct
