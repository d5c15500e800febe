import Eleos.Direct.Lemmas.Core

/-!
# 部分ページを離れる操作とつながる操作

`aptr_fsync` は、`Aptr` のつながりを除いた残りについて不変条件を成り立たせる。`page_fault` は、新しいつながりを加える。
-/

namespace Eleos.Direct

open Eleos.Pager (Config pageSize maxNumOfThreadsOptimization)

variable {cfg : Config} {G : Gcm} {s : State} {a : Aptr} {o : Obj} {p q : Int} {i k : Nat} {it : Item} {l : Link}
  {R : Multiset Link} {P : Multiset Int} {r : Int → UInt8} {M : Int → Option UInt8}

/-- オブジェクトのつながり。 -/
def Obj.link? (o : Obj) : Option Link :=
  o.aptr.prmPtr.map fun i => ⟨o.aptr.basePageIndex + o.aptr.page, i, o.aptr.subPageIndex, o.wrote⟩

/-- オブジェクトの不変条件。 -/
structure Obj.Ok (cfg : Config) (o : Obj) : Prop where
  bounded : o.aptr.Bounded cfg
  sub_lt : 0 ≤ o.aptr.basePageIndex → o.aptr.subPageIndex < subPageCount
  wrote : o.wrote = true → o.aptr.hintWrite = true

/-! ## 参照の数 -/

theorem Counts.inc (h : Counts r P) : Counts (Function.update r p (r p + 1)) (p ::ₘ P) := by
  intro q
  by_cases hq : q = p
  · subst hq
    rw [Function.update_self, Multiset.count_cons_self, h q, UInt8.ofNat_add]
    rfl
  · rw [Function.update_of_ne hq, Multiset.count_cons_of_ne hq, h q]

theorem Counts.dec (h : Counts r (p ::ₘ P)) : Counts (Function.update r p (r p - 1)) P := by
  intro q
  by_cases hq : q = p
  · subst hq
    rw [Function.update_self, h q, Multiset.count_cons_self, UInt8.ofNat_add]
    simp
  · rw [Function.update_of_ne hq, h q, Multiset.count_cons_of_ne hq]

/-- 参照の数が 1 であるのは、ほかにつながりがないときに限る。 -/
theorem Counts.eq_one_iff (h : Counts r (p ::ₘ P)) (hle : (p ::ₘ P).count p ≤ 255) : r p = 1 ↔ p ∉ P := by
  have hc := h p
  rw [Multiset.count_cons_self] at hc hle
  have h1 : (1 : UInt8).toNat = 1 := rfl
  rw [hc, ← Multiset.count_eq_zero, ← UInt8.toNat_inj, UInt8.toNat_ofNat', h1]
  omega

/-! ## `aptr_fsync` -/

theorem int32_page (h : 0 ≤ p ∧ p < cfg.poolPages) : int32 p = p := by
  have hpool : (cfg.poolPages : Int) ≤ 524288 := by exact_mod_cast cfg.poolPages_le
  exact int32_of_range (by omega) (by omega)

/-- ページを外すか、ほかのつながりに任せる。 -/
theorem tryRemove_core (h : s.Core cfg G M (l ::ₘ R)) (hw : l.wrote = false)
    (hc : Counts s.l1.refCount ((l ::ₘ R).map Link.page)) (hle : ((l ::ₘ R).map Link.page).count l.page ≤ 255) :
    ∃ b c, s.l1.tryRemove l.page = .ok (b, c) ∧ c.refCount = s.l1.refCount ∧
      State.Core cfg G M R { s with
        l1 := c, freeEpcPages := if b then l.slot :: s.freeEpcPages else s.freeEpcPages } := by
  rw [Multiset.map_cons] at hc hle
  have hl := h.fits l (Multiset.mem_cons_self l R)
  obtain ⟨it, hit, _⟩ := hl.resident
  have hrange : 0 ≤ l.page ∧ l.page < s.l1.backingStoreSize := by
    rw [h.store]
    exact hl.range
  by_cases hone : s.l1.refCount l.page = 1
  · have hlast : ∀ l' ∈ R, l'.page ≠ l.page := by
      intro l' hl' he
      exact (hc.eq_one_iff hle).mp hone (Multiset.mem_map.mpr ⟨l', hl', he⟩)
    exact ⟨true, _, PageCache.tryRemove_take hrange hone hit, rfl, h.drop hw hlast⟩
  · have hmore : ∃ l' ∈ R, l'.page = l.page := by
      by_contra hno
      refine hone ((hc.eq_one_iff hle).mpr fun hm => hno ?_)
      exact Multiset.mem_map.mp hm
    exact ⟨false, _, PageCache.tryRemove_skip hrange hone, rfl, h.stay hw hmore⟩

theorem Obj.link?_eq (hl : o.link? = some l) : o.aptr.prmPtr = some l.slot ∧
    o.aptr.basePageIndex + o.aptr.page = l.page ∧ o.aptr.subPageIndex = l.sub ∧ o.wrote = l.wrote := by
  unfold Obj.link? at hl
  cases hp : o.aptr.prmPtr with
  | none => simp [hp] at hl
  | some i =>
      simp only [hp, Option.map_some, Option.some.injEq] at hl
      subst hl
      exact ⟨rfl, rfl, rfl, rfl⟩

/-- `aptr_fsync` のあと、不変条件はこの `Aptr` を除いて成り立つ。 -/
theorem aptrFsync_core (hG : G.Correct) (h : s.Core cfg G M (l ::ₘ R)) (hl : o.link? = some l)
    (hw : o.wrote = true → o.aptr.hintWrite = true) (hc : Counts s.l1.refCount ((l ::ₘ R).map Link.page))
    (hle : ((l ::ₘ R).map Link.page).count l.page ≤ 255) :
    ∃ s', aptrFsync cfg G s o.aptr = .ok s' ∧ s'.Core cfg G M R ∧ s'.l1.refCount = s.l1.refCount ∧
      s'.trace = s.trace := by
  obtain ⟨hptr, hpage, hsub, hwrote⟩ := Obj.link?_eq hl
  have hrange := (h.fits l (Multiset.mem_cons_self l R)).range
  have hclear : ∃ s₁, (if o.aptr.hintWrite then
        sealSubPage G s l.page l.sub (epcAddr cfg l.slot l.sub) else .ok s) = .ok s₁ ∧
      s₁.Core cfg G M ({ l with wrote := false } ::ₘ R) ∧ s₁.l1 = s.l1 ∧ s₁.trace = s.trace := by
    cases hh : o.aptr.hintWrite with
    | true =>
        obtain ⟨c, e, hs, hcore⟩ := sealSubPage_core hG h
        exact ⟨_, by rw [if_pos rfl]; exact hs, hcore, rfl, rfl⟩
    | false =>
        have hl0 : l.wrote = false := by
          cases hx : o.wrote with
          | true => simp [hw hx] at hh
          | false => exact hwrote.symm.trans hx
        have hsame : ({ l with wrote := false } : Link) = l := by rw [← hl0]
        exact ⟨s, by simp, by rw [hsame]; exact h, rfl, rfl⟩
  obtain ⟨s₁, hs₁, hcore, hl1, htr⟩ := hclear
  obtain ⟨b, c, hb, href, hcore'⟩ := tryRemove_core hcore rfl (by rw [hl1, Multiset.map_cons] at *; exact hc)
    (by rw [Multiset.map_cons] at *; exact hle)
  refine ⟨_, ?_, hcore', href.trans (by rw [hl1]), htr⟩
  unfold aptrFsync
  rw [hptr]
  simp only [hpage, hsub, int32_page hrange]
  dsimp only at hb
  cases hh : o.aptr.hintWrite with
  | true =>
      rw [hh, if_pos rfl] at hs₁
      cases b with
      | true => simp [hs₁, hb, Bind.bind, Except.bind]
      | false => simp [hs₁, hb, Bind.bind, Except.bind]
  | false =>
      rw [hh] at hs₁
      cases hs₁
      cases b with
      | true => simp [hb, Bind.bind, Except.bind]
      | false => simp [hb, Bind.bind, Except.bind]

/-! ## `Aptr` の移動 -/

/-- 参照をたどる部分ページの番号。 -/
def Aptr.sub (a : Aptr) : Nat := (a.offset % pageSize / subPageSize).toNat

theorem Aptr.cell_lt (a : Aptr) : (a.offset % subPageSize).toNat < subPageSize := by
  unfold subPageSize
  omega

/-- 参照をたどるバイトの、部分ページの中の位置。 -/
def Aptr.cell (a : Aptr) : Fin subPageSize := ⟨(a.offset % subPageSize).toNat, a.cell_lt⟩

/-- 位置を正規化し、枠 `i` につないだ `Aptr`。 -/
def Aptr.linkTo (a : Aptr) (i : Nat) : Aptr := ⟨a.toAptr.linkTo i, a.sub⟩

theorem Aptr.sub_lt (a : Aptr) : a.sub < subPageCount := by
  simp only [Aptr.sub, pageSize, subPageSize, subPageCount]
  omega

theorem Aptr.addr_eq (a : Aptr) : a.addr = cellAddr a.target a.sub a.cell := by
  rw [Pager.Aptr.target_eq]
  simp only [Pager.Aptr.addr, cellAddr, Aptr.sub, Aptr.cell, pageSize, subPageSize]
  omega

theorem clearTag_slot (cfg : Config) (i : Nat) : Pager.clearTag (cfg.slot i) = cfg.slot i := by
  simp only [Pager.clearTag, Config.slot, Config.slab, pageSize]
  omega

theorem aptr2Addr_linkTo : aptr2Addr cfg (a.linkTo i) = epcAddr cfg i a.sub + a.cell := by
  have hprm : prm cfg (a.linkTo i) = cfg.slot i := rfl
  have hoff : (a.linkTo i).offset = a.offset % pageSize := rfl
  rw [aptr2Addr, hprm, clearTag_slot, hoff]
  simp only [epcAddr, Aptr.sub, Aptr.cell, pageSize, subPageSize]
  omega

/-- 部分ページの中にあるつながった `Aptr` は、正規化しても変わらない。 -/
theorem linkTo_of_inSubPage (hin : inSubPage a = true) (hk : a.subPageIndex < subPageCount)
    (hl : a.prmPtr = some i) : a.linkTo i = a ∧ a.target = a.basePageIndex + a.page ∧ a.sub = a.subPageIndex := by
  simp only [inSubPage, Bool.and_eq_true, decide_eq_true_eq] at hin
  simp only [subPageSize, subPageCount] at hin hk
  have hmod : a.offset % pageSize = a.offset := by
    simp only [pageSize]
    omega
  have htarget : a.target = a.basePageIndex + a.page := by
    rw [Pager.Aptr.target_eq]
    simp only [pageSize]
    omega
  have hsub : a.sub = a.subPageIndex := by
    rw [Aptr.sub, hmod]
    simp only [subPageSize]
    omega
  refine ⟨?_, htarget, hsub⟩
  have hpage : a.target - a.basePageIndex = a.page := by
    rw [htarget]
    omega
  rw [Aptr.linkTo, Pager.Aptr.linkTo, Pager.Aptr.normal, hmod, hpage, hsub, ← hl]

/-! ## `page_fault` -/

theorem prm_eq_zero_iff : prm cfg a = 0 ↔ a.prmPtr = none := by
  unfold prm
  cases h : a.prmPtr with
  | none => simp
  | some i => simp [cfg.slot_ne_zero i]

/-- ページの参照を付け替えた結果。 -/
structure Retargeted (cfg : Config) (s : State) (a : Aptr) (P : Multiset Int) (r : Int → UInt8) : Prop where
  eq : retarget cfg s a = .ok ({ s with l1 := { s.l1 with refCount := r } },
    ⟨a.toAptr.normal, a.sub⟩, a.target)
  counts : Counts r (a.target ::ₘ P)

section Retarget

variable (hstore : s.l1.backingStoreSize = cfg.poolPages) (hb : a.Bounded cfg) (hd : a.Derefable cfg)

include hb hd

theorem retarget_page : int32 (a.page + a.offset / pageSize) = a.target - a.basePageIndex ∧
    int32 a.target = a.target := by
  have hpool : (cfg.poolPages : Int) ≤ 524288 := by exact_mod_cast cfg.poolPages_le
  have hbase := hb.base_lt
  have hbase0 := hd.base
  have htarget := a.target_eq
  have h0 := hd.target_nonneg
  have h1 := hd.target_lt
  constructor
  · rw [int32_of_range (by omega) (by omega)]
    omega
  · exact int32_of_range (by omega) (by omega)

include hstore

theorem retarget_fresh (hl : a.prmPtr = none) (hc : Counts s.l1.refCount P) : ∃ r, Retargeted cfg s a P r := by
  obtain ⟨hpage, hindex⟩ := retarget_page hb hd
  have hmoved : a.offset / pageSize ≠ 0 := by
    have hv := hd.biased hl
    simp only [Pager.isValid, Bool.and_eq_false_iff, decide_eq_false_iff_not] at hv
    simp only [pageSize] at hv ⊢
    omega
  have hinc : s.l1.incRefCount a.target = .ok { s.l1 with
      refCount := Function.update s.l1.refCount a.target (s.l1.refCount a.target + 1) } :=
    PageCache.setRefCount_eq ⟨hd.target_nonneg, by rw [hstore]; exact hd.target_lt⟩
  refine ⟨_, ?_, hc.inc⟩
  have hz : prm cfg a = 0 := prm_eq_zero_iff.mpr hl
  unfold retarget
  simp [hz, hmoved, hpage, hindex, hinc, Bind.bind, Except.bind, Pager.Aptr.normal, Aptr.sub]

theorem retarget_linked (hl : a.prmPtr = some i) (hc : Counts s.l1.refCount ((a.basePageIndex + a.page) ::ₘ P)) :
    ∃ r, Retargeted cfg s a P r := by
  obtain ⟨hpage, hindex⟩ := retarget_page hb hd
  have hz : prm cfg a ≠ 0 := by
    rw [Ne, prm_eq_zero_iff, hl]
    simp
  obtain ⟨_, hp⟩ := hb.linked (by simp [hl])
  by_cases hmoved : a.offset / pageSize = 0
  · have htarget : a.target = a.basePageIndex + a.page := by rw [Pager.Aptr.target_eq, hmoved, Int.add_zero]
    refine ⟨s.l1.refCount, ?_, by rw [htarget]; exact hc⟩
    rw [hmoved, Int.add_zero] at hpage
    unfold retarget
    simp [hmoved, hpage, hindex, Bind.bind, Except.bind, Pager.Aptr.normal, Aptr.sub]
  · have hdec : s.l1.decRefCount (a.basePageIndex + a.page) = .ok { s.l1 with
        refCount := Function.update s.l1.refCount (a.basePageIndex + a.page)
          (s.l1.refCount (a.basePageIndex + a.page) - 1) } :=
      PageCache.setRefCount_eq ⟨hp.1, by rw [hstore]; exact hp.2⟩
    have hinc {c : PageCache} (hc : c.backingStoreSize = cfg.poolPages) : c.incRefCount a.target = .ok { c with
        refCount := Function.update c.refCount a.target (c.refCount a.target + 1) } :=
      PageCache.setRefCount_eq ⟨hd.target_nonneg, by rw [hc]; exact hd.target_lt⟩
    refine ⟨_, ?_, hc.dec.inc⟩
    unfold retarget
    simp [hz, hmoved, hpage, hindex, int32_page hp, hdec, hinc, hstore, Bind.bind, Except.bind, Pager.Aptr.normal,
      Aptr.sub]

end Retarget

/-- 表のページは、どれもつながりのページである。 -/
theorem State.Core.size_le (h : s.Core cfg G M R) : s.l1.pageCacheSize ≤ (R.map Link.page).toFinset.card := by
  have hnd := Table.items_keys_nodup h.table
  rw [h.size, ← Multiset.card_map Item.pageIndex, ← Multiset.toFinset_card_of_nodup hnd]
  apply Finset.card_le_card
  intro p hp
  obtain ⟨it, hit, rfl⟩ := Multiset.mem_map.mp (Multiset.mem_toFinset.mp hp)
  obtain ⟨l, hl, hpage⟩ := h.cached it.pageIndex it ((Table.mem_items_iff h.table).mp hit)
  exact Multiset.mem_toFinset.mpr (Multiset.mem_map.mpr ⟨l, hl, hpage⟩)

/-- つながっているページの枚数に余裕がある。 -/
def Roomy (cfg : Config) (R : Multiset Link) : Prop :=
  (R.map Link.page).toFinset.card < cfg.cacheCapacity - maxNumOfThreadsOptimization

theorem makeRoom_eq (h : s.Core cfg G M R) (hroom : Roomy cfg R) : makeRoom cfg s = .ok s := by
  have hle := h.size_le
  unfold Roomy at hroom
  unfold makeRoom
  rw [if_neg (by omega)]

theorem popFree_eq (h : s.Core cfg G M R) (hroom : Roomy cfg R) :
    ∃ i rest, s.freeEpcPages = i :: rest ∧ popFree s = .ok (i, { s with freeEpcPages := rest }) := by
  have hle := h.size_le
  have hcard := congrArg Multiset.card h.slots
  rw [Multiset.card_add, Multiset.card_map, Multiset.coe_card, Multiset.card_range, ← h.size] at hcard
  unfold Roomy at hroom
  cases hf : s.freeEpcPages with
  | nil =>
      rw [hf, List.length_nil] at hcard
      omega
  | cons i rest => exact ⟨i, rest, rfl, by rw [popFree, hf]⟩

/-- 部分ページを読み込んで、新しいつながりを加える。 -/
theorem loadSubPage_core (h : s.Core cfg G M R) (hroom : Roomy cfg R) (hp : 0 ≤ p ∧ p < cfg.poolPages)
    (hk : k < subPageCount) (hmiss : ∀ it, s.l1.get p = some it → it.isValid k = false) :
    ∃ s' i, loadSubPage cfg G s p k = .ok (s', i) ∧ s'.Core cfg G M (⟨p, i, k, false⟩ ::ₘ R) ∧
      s'.l1.refCount = s.l1.refCount ∧ s'.trace = s.trace := by
  obtain ⟨i, rest, hf, hpop⟩ := popFree_eq h hroom
  obtain ⟨e, hfill, hload⟩ := fillSubPage_core h hk hmiss rest i
  cases hg : s.l1.get p with
  | none =>
      refine ⟨_, i, ?_, h.install hp hk hg hf hload, rfl, rfl⟩
      unfold loadSubPage
      refine bind_ok_iff.mpr ⟨_, hpop, bind_ok_iff.mpr ⟨_, hfill, ?_⟩⟩
      simp [PageCache.tryAdd, hg, PageCache.put]
  | some it =>
      have hi : i ∈ s.freeEpcPages := by
        rw [hf]
        exact List.mem_cons_self
      have hkey := PageCache.pageIndex_of_get hg
      refine ⟨_, it.epc, ?_, h.merge hp hk hg (hmiss it hg) hi hload, rfl, rfl⟩
      unfold loadSubPage
      refine bind_ok_iff.mpr ⟨_, hpop, bind_ok_iff.mpr ⟨_, hfill, ?_⟩⟩
      simp [PageCache.tryAdd, hg, mergeSubPage, hmiss it hg, hkey, hf]

/-- `page_fault` のあと、`Aptr` は参照をたどる部分ページにつながる。 -/
theorem pageFault_core (h : s.Core cfg G M R) (hroom : Roomy cfg R) (hd : a.Derefable cfg)
    (hr : Retargeted cfg s a (R.map Link.page) r) :
    ∃ s' i, pageFault cfg G s a = .ok (s', a.linkTo i) ∧ s'.Core cfg G M (⟨a.target, i, a.sub, false⟩ ::ₘ R) ∧
      Counts s'.l1.refCount (a.target ::ₘ R.map Link.page) ∧ s'.trace = s.trace := by
  have hrange : 0 ≤ a.target ∧ a.target < cfg.poolPages := ⟨hd.target_nonneg, hd.target_lt⟩
  have h₁ : State.Core cfg G M R { s with l1 := { s.l1 with refCount := r } } := h.withRefCount
  have hget : PageCache.get { s.l1 with refCount := r } a.target = s.l1.get a.target := rfl
  cases hv : (s.l1.get a.target).filter fun it => it.isValid a.sub with
  | some it =>
      obtain ⟨hit, hvalid⟩ := Option.filter_eq_some_iff.mp hv
      refine ⟨_, it.epc, ?_, h₁.join ⟨hrange, a.sub_lt, it, hit, rfl, hvalid⟩ rfl, hr.counts, rfl⟩
      unfold pageFault
      refine bind_ok_iff.mpr ⟨_, hr.eq, ?_⟩
      simp only [hget, hv]
      rfl
  | none =>
      have hmiss : ∀ it, s.l1.get a.target = some it → it.isValid a.sub = false := by
        intro it hit
        simpa [hit, Option.filter] using hv
      obtain ⟨s', i, hload, hcore, href, htr⟩ := loadSubPage_core h₁ hroom hrange a.sub_lt hmiss
      refine ⟨s', i, ?_, hcore, by rw [href]; exact hr.counts, htr⟩
      unfold pageFault
      refine bind_ok_iff.mpr ⟨_, hr.eq, ?_⟩
      simp only [hget, hv]
      exact bind_ok_iff.mpr ⟨_, makeRoom_eq h₁ hroom, bind_ok_iff.mpr ⟨_, hload, rfl⟩⟩

/-! ## `deref` と `reset` -/

/-- つながりがあれば加える。 -/
def withLink : Option Link → Multiset Link → Multiset Link
  | none, R => R
  | some l, R => l ::ₘ R

section Obj

variable (hG : G.Correct) (h : s.Core cfg G M (withLink o.link? R))
  (hc : Counts s.l1.refCount ((withLink o.link? R).map Link.page))
  (hle : ∀ p, ((withLink o.link? R).map Link.page).count p ≤ 255) (ho : o.Ok cfg)

include hG h hc hle ho

/-- `aptr_fsync` は、つながっていない `Aptr` には何もしない。 -/
theorem fsync_core : ∃ s', aptrFsync cfg G s o.aptr = .ok s' ∧ s'.Core cfg G M R ∧
    s'.l1.refCount = s.l1.refCount ∧ s'.trace = s.trace := by
  cases hl : o.link? with
  | none =>
      rw [hl] at h
      have hp : o.aptr.prmPtr = none := by simpa [Obj.link?] using hl
      exact ⟨s, by rw [aptrFsync, hp], h, rfl, rfl⟩
  | some l =>
      rw [hl] at h hc hle
      exact aptrFsync_core hG h hl ho.wrote hc (hle l.page)

theorem deref_core (hd : o.aptr.Derefable cfg) (hroom : Roomy cfg R) :
    ∃ s' i, deref cfg G s o.aptr = .ok (s', o.aptr.linkTo i, epcAddr cfg i o.aptr.sub + o.aptr.cell) ∧
      s'.Core cfg G M (⟨o.aptr.target, i, o.aptr.sub, o.wrote && inSubPage o.aptr⟩ ::ₘ R) ∧
      Counts s'.l1.refCount (o.aptr.target ::ₘ R.map Link.page) ∧ s'.trace = s.trace := by
  have hk := ho.sub_lt hd.base
  cases hin : inSubPage o.aptr with
  | true =>
      cases hp : o.aptr.prmPtr with
      | none =>
          -- つながっていない `Aptr` の `offset` はページの外にある。
          have hv := hd.biased hp
          simp only [Pager.isValid, Bool.and_eq_false_iff, decide_eq_false_iff_not] at hv
          simp only [inSubPage, Bool.and_eq_true, decide_eq_true_eq] at hin
          simp only [pageSize, subPageSize, subPageCount] at hv hin hk
          omega
      | some i =>
          obtain ⟨hlink, htarget, hsub⟩ := linkTo_of_inSubPage hin hk hp
          have hl : o.link? = some ⟨o.aptr.target, i, o.aptr.sub, o.wrote && true⟩ := by
            rw [htarget, hsub, Bool.and_true, Obj.link?, hp]
            rfl
          rw [hl] at h hc
          refine ⟨s, i, ?_, h, by rw [withLink, Multiset.map_cons] at hc; exact hc, rfl⟩
          rw [← aptr2Addr_linkTo, hlink]
          simp [deref, hin, Bind.bind, Except.bind]
  | false =>
      obtain ⟨s₁, hsync, hcore, href, htr⟩ := fsync_core hG h hc hle ho
      rw [← href] at hc
      have hr : ∃ r, Retargeted cfg s₁ o.aptr (R.map Link.page) r := by
        cases hp : o.aptr.prmPtr with
        | none =>
            have hl : o.link? = none := by simp [Obj.link?, hp]
            rw [hl] at hc
            exact retarget_fresh hcore.store ho.bounded hd hp hc
        | some i =>
            have hl : o.link? =
                some ⟨o.aptr.basePageIndex + o.aptr.page, i, o.aptr.subPageIndex, o.wrote⟩ := by
              simp [Obj.link?, hp]
            rw [hl, withLink, Multiset.map_cons] at hc
            exact retarget_linked hcore.store ho.bounded hd hp hc
      obtain ⟨r, hr⟩ := hr
      obtain ⟨s', i, hfault, hcore', hcounts, htr'⟩ := pageFault_core hcore hroom hd hr
      refine ⟨s', i, ?_, by rw [Bool.and_false]; exact hcore', hcounts, htr'.trans htr⟩
      rw [← aptr2Addr_linkTo]
      simp [deref, hin, hsync, hfault, Bind.bind, Except.bind]

theorem reset_core : ∃ s', o.aptr.reset cfg G s = .ok (s', { o.aptr with basePageIndex := -1, prmPtr := none }) ∧
    s'.Core cfg G M R ∧ Counts s'.l1.refCount (R.map Link.page) ∧ s'.trace = s.trace := by
  cases hp : o.aptr.prmPtr with
  | none =>
      have hl : o.link? = none := by simp [Obj.link?, hp]
      rw [hl] at h hc
      refine ⟨s, ?_, h, hc, rfl⟩
      unfold Aptr.reset
      rw [if_pos (Or.inr (prm_eq_zero_iff.mpr hp))]
  | some i =>
      obtain ⟨hbase, hrange⟩ := ho.bounded.linked (by simp [hp])
      have hl : o.link? = some ⟨o.aptr.basePageIndex + o.aptr.page, i, o.aptr.subPageIndex, o.wrote⟩ := by
        simp [Obj.link?, hp]
      obtain ⟨s₁, hsync, hcore, href, htr⟩ := fsync_core hG h hc hle ho
      rw [hl, withLink, Multiset.map_cons, ← href] at hc
      have hdec : s₁.l1.decRefCount (o.aptr.basePageIndex + o.aptr.page) = .ok { s₁.l1 with
          refCount := Function.update s₁.l1.refCount (o.aptr.basePageIndex + o.aptr.page)
            (s₁.l1.refCount (o.aptr.basePageIndex + o.aptr.page) - 1) } :=
        PageCache.setRefCount_eq ⟨hrange.1, by rw [hcore.store]; exact hrange.2⟩
      refine ⟨_, ?_, hcore.withRefCount, hc.dec, htr⟩
      have hz : prm cfg o.aptr ≠ 0 := by
        rw [Ne, prm_eq_zero_iff, hp]
        simp
      unfold Aptr.reset
      rw [if_neg (by rintro (hx | hx) <;> [omega; exact hz hx])]
      refine bind_ok_iff.mpr ⟨s₁, hsync, bind_ok_iff.mpr ⟨_, ?_, rfl⟩⟩
      rw [int32_page hrange]
      exact hdec

end Obj

end Eleos.Direct
