import Eleos.Pager.Lemmas.Pinning

/-!
# 枠とページの対応

枠は、空きの並びにあるか、表のただ一つの項目に使われている。待ち行列には、表にあるページがちょうど一度ずつ並ぶ。
-/

namespace Eleos.Pager

variable {cfg : Config} {G : Gcm} {host : (Nat → UInt8) → Nat → UInt8} {s s' : State} {a : Aptr} {p q : Int}
  {it : Item} {i : Nat}

/-- ページの管理の構造の不変条件。 -/
structure State.Wf (cfg : Config) (s : State) : Prop where
  slots : s.Slots cfg
  table : s.l1.table.Wf Item.pageIndex
  ring : s.l1.usedPages.Wf
  ringSize : s.l1.usedPages.size = cfg.cacheCapacity
  queued : ∀ p, p ∈ s.l1.usedPages.toList ↔ ∃ it, s.l1.get p = some it
  queueNodup : s.l1.usedPages.toList.Nodup
  size : s.l1.pageCacheSize = s.l1.usedPages.toList.length
  size_le : s.l1.pageCacheSize ≤ cfg.cacheCapacity - maxNumOfThreadsOptimization
  page_range : ∀ p it, s.l1.get p = some it → 0 ≤ p ∧ p < cfg.poolPages
  epc_inj : ∀ p q it it', s.l1.get p = some it → s.l1.get q = some it' → it.epc = it'.epc → p = q
  freeNodup : s.freeEpcPages.Nodup
  free_apart : ∀ p it, s.l1.get p = some it → it.epc ∉ s.freeEpcPages
  free_clean : ∀ i ∈ s.freeEpcPages, tagBit (s.epcArr i) = false
  free_count : s.freeEpcPages.length + s.l1.pageCacheSize = cfg.cacheCapacity

theorem State.init_wf (cfg : Config) (epc pool : Nat → UInt8) (key : Key) (rand : Nat → Nonce) :
    (State.init cfg epc pool key rand).Wf cfg := by
  have hget : ∀ p, (State.init cfg epc pool key rand).l1.get p = none := fun _ => rfl
  have hl : (State.init cfg epc pool key rand).l1.usedPages.toList = [] := rfl
  refine ⟨(Sys.init_pinned cfg epc pool key rand).slots, ?_, ⟨Nat.le_refl _, Nat.zero_le _⟩, rfl, ?_, ?_, ?_,
    Nat.zero_le _, ?_, ?_, ?_, ?_, ?_, ?_⟩
  · have hpos : 0 < cfg.cacheCapacity * 10 := by
      have := cfg.capacity_pos
      omega
    exact ⟨fun k => Nat.mod_lt _ hpos, fun b x hx => by simp [State.init, PageCache.init] at hx,
      fun b => by simp [State.init, PageCache.init]⟩
  · simp [hl, hget]
  · simp [hl]
  · rw [hl]; rfl
  · simp [hget]
  · simp [hget]
  · exact List.nodup_reverse.mpr List.nodup_range
  · simp [hget]
  · intro i _
    have h : (cfg.slabPtr / pageSize * pageSize + i * pageSize) % 2 = 0 := by
      simp only [pageSize]
      omega
    simp [State.init, tagBit, Config.slot, Config.slab, h]
  · simp [State.init, PageCache.init]

/-- 参照の数は構造に関わらない。 -/
theorem State.Wf.withRefCount {r : Int → UInt8} (h : s.Wf cfg) :
    State.Wf cfg { s with l1 := { s.l1 with refCount := r } } :=
  ⟨h.slots, h.table, h.ring, h.ringSize, h.queued, h.queueNodup, h.size, h.size_le, h.page_range, h.epc_inj,
    h.freeNodup, h.free_apart, h.free_clean, h.free_count⟩

theorem State.Wf.withPool {m : Nat → UInt8} (h : s.Wf cfg) : State.Wf cfg { s with pool := m } :=
  ⟨h.slots, h.table, h.ring, h.ringSize, h.queued, h.queueNodup, h.size, h.size_le, h.page_range, h.epc_inj,
    h.freeNodup, h.free_apart, h.free_clean, h.free_count⟩

theorem State.Wf.mark {b : Bool} (h : s.Wf cfg) (hi : i ∉ s.freeEpcPages) : (s.mark i b).Wf cfg := by
  cases b with
  | false => exact h
  | true =>
      refine ⟨h.slots.mark (b := true), h.table, h.ring, h.ringSize, h.queued, h.queueNodup, h.size, h.size_le,
        h.page_range, h.epc_inj, h.freeNodup, h.free_apart, ?_, h.free_count⟩
      intro j hj
      have hne : j ≠ i := by rintro rfl; exact hi hj
      simpa [State.mark, hne] using h.free_clean j hj

theorem State.Wf.withBytes {m : Nat → UInt8} {l : List Event} (h : s.Wf cfg) :
    State.Wf cfg { s with epc := m, trace := l } :=
  ⟨h.slots, h.table, h.ring, h.ringSize, h.queued, h.queueNodup, h.size, h.size_le, h.page_range, h.epc_inj,
    h.freeNodup, h.free_apart, h.free_clean, h.free_count⟩

theorem State.Wf.writeBack {e : Seal} (h : s.Wf cfg) : (s.writeBack it e).Wf cfg := by
  refine ⟨?_, h.table, h.ring, h.ringSize, h.queued, h.queueNodup, h.size, h.size_le, h.page_range, h.epc_inj,
    h.freeNodup, h.free_apart, ?_, h.free_count⟩
  · exact fun j => (clearTag_update (clearTag_clearTag _) j).trans (h.slots j)
  · intro j hj
    by_cases hne : j = it.epc
    · subst hne
      simp [State.writeBack]
    · simpa [State.writeBack, hne] using h.free_clean j hj

/-! ## 項目を外す -/

/-- 待ち行列を取り替えた状態。 -/
def State.rotate (s : State) (r : Ring Int) : State := { s with l1 := { s.l1 with usedPages := r } }

theorem State.get_drop (h : s.Wf cfg) (it : Item) {r : Ring Int} {e : Option Seal} (q : Int) :
    ((s.rotate r).drop it e).l1.get q = if q = it.pageIndex then none else s.l1.get q := by
  by_cases hq : q = it.pageIndex
  · subst hq
    rw [if_pos rfl]
    exact Table.get_remove_self h.table
  · rw [if_neg hq]
    exact Table.get_remove_ne hq

/-- 外したあとに残るのは、外した項目と異なる、もとからある項目である。 -/
theorem State.mem_drop {r : Ring Int} {e : Option Seal} {q : Int} {jt : Item} (h : s.Wf cfg)
    (hq : ((s.rotate r).drop it e).l1.get q = some jt) : q ≠ it.pageIndex ∧ s.l1.get q = some jt := by
  rw [State.get_drop h] at hq
  split at hq
  · cases hq
  · exact ⟨by assumption, hq⟩

/-- 変更のない枠の項目 `it` を外す。待ち行列からは `it` のページだけが消える。 -/
theorem State.Wf.drop {r : Ring Int} {e : Option Seal} (h : s.Wf cfg) (hit : s.l1.get it.pageIndex = some it)
    (hclean : tagBit (s.epcArr it.epc) = false) (hr : r.Wf) (hsize : r.size = s.l1.usedPages.size)
    (hperm : (it.pageIndex :: r.toList).Perm s.l1.usedPages.toList) : ((s.rotate r).drop it e).Wf cfg := by
  have hget {q : Int} := State.get_drop (e := e) (r := r) h it q
  have hmem {q : Int} {jt : Item} (hq : ((s.rotate r).drop it e).l1.get q = some jt) := State.mem_drop h hq
  have hnd := hperm.nodup_iff.mpr h.queueNodup
  have hlen := hperm.length_eq
  rw [List.length_cons] at hlen
  have hsz := h.size
  have hle := h.size_le
  have hfc := h.free_count
  refine ⟨h.slots, h.table.remove, hr, hsize.trans h.ringSize, ?_, (List.nodup_cons.mp hnd).2, ?_, ?_, ?_, ?_, ?_,
    ?_, ?_, ?_⟩
  · intro q
    have hq := (hperm.mem_iff (a := q)).trans (h.queued q)
    rw [hget]
    by_cases hqi : q = it.pageIndex
    · subst hqi
      simp only [↓reduceIte, reduceCtorEq, exists_false, iff_false]
      exact (List.nodup_cons.mp hnd).1
    · rw [if_neg hqi, ← hq, List.mem_cons]
      exact ⟨Or.inr, fun h => h.resolve_left hqi⟩
  · show s.l1.pageCacheSize - 1 = r.toList.length
    omega
  · show s.l1.pageCacheSize - 1 ≤ _
    omega
  · intro q jt hq
    exact h.page_range q jt (hmem hq).2
  · intro q q' jt jt' hq hq' heq
    exact h.epc_inj q q' jt jt' (hmem hq).2 (hmem hq').2 heq
  · exact List.nodup_cons.mpr ⟨h.free_apart _ it hit, h.freeNodup⟩
  · intro q jt hq
    obtain ⟨hne, hq⟩ := hmem hq
    intro hm
    rcases List.mem_cons.mp hm with heq | hm
    · exact hne (h.epc_inj q _ jt it hq hit heq)
    · exact h.free_apart q jt hq hm
  · intro j hj
    rcases List.mem_cons.mp hj with rfl | hj
    · exact hclean
    · exact h.free_clean j hj
  · show (it.epc :: s.freeEpcPages).length + (s.l1.pageCacheSize - 1) = _
    rw [List.length_cons]
    omega

/-- `makeRoom` の結果。追い出す項目には参照がなく、変更があれば先に書き出す。 -/
inductive Room (cfg : Config) (G : Gcm) (s : State) : State → Prop where
  | skip : s.l1.pageCacheSize < cfg.cacheCapacity - maxNumOfThreadsOptimization → Room cfg G s s
  | clean {it : Item} {r : Ring Int} : s.l1.get it.pageIndex = some it → s.l1.refCount it.pageIndex = 0 →
      r.Wf → r.size = s.l1.usedPages.size → (it.pageIndex :: r.toList).Perm s.l1.usedPages.toList →
      tagBit (s.epcArr it.epc) = false → Room cfg G s ((s.rotate r).drop it none)
  | dirty {it : Item} {r : Ring Int} {e : Seal} : s.l1.get it.pageIndex = some it →
      s.l1.refCount it.pageIndex = 0 → r.Wf → r.size = s.l1.usedPages.size →
      (it.pageIndex :: r.toList).Perm s.l1.usedPages.toList → tagBit (s.epcArr it.epc) = true → s.Seals G it e →
      Room cfg G s (((s.writeBack it e).rotate r).drop it (some e))

theorem evict_room {c : PageCache} (h : s.Wf cfg) (hscan : s.l1.getPageIndexToEvict = .ok (it, c))
    (hev : tryEvictPage G { s with l1 := c } it = .ok s') : Room cfg G s s' := by
  obtain ⟨hit, hz, r, rfl⟩ := PageCache.getPageIndexToEvict_ok hscan
  obtain ⟨hwr, hsr, hperm⟩ := PageCache.getPageIndexToEvict_ring h.ring hscan
  obtain ⟨_, ⟨ht, rfl⟩ | ⟨ht, e, he, rfl⟩⟩ := tryEvictPage_ok_iff.mp hev
  · exact .clean hit hz hwr hsr hperm ht
  · exact .dirty hit hz hwr hsr hperm ht he

theorem makeRoom_room (h : s.Wf cfg) (hm : makeRoom cfg G s = .ok s') : Room cfg G s s' := by
  rcases makeRoom_ok_iff.mp hm with ⟨hlt, rfl⟩ | ⟨_, it, c, hscan, hev⟩
  · exact .skip hlt
  · exact evict_room h hscan hev

theorem Room.wf (h : s.Wf cfg) (hr : Room cfg G s s') : s'.Wf cfg := by
  cases hr with
  | skip _ => exact h
  | clean hit _ hw hsz hperm ht => exact h.drop hit ht hw hsz hperm
  | dirty hit _ hw hsz hperm ht he =>
      exact h.writeBack.drop hit (by simp [State.writeBack]) hw hsz hperm

theorem Room.size_lt (h : s.Wf cfg) (hr : Room cfg G s s') :
    s'.l1.pageCacheSize < cfg.cacheCapacity - maxNumOfThreadsOptimization := by
  have hle := h.size_le
  have hcap := cfg.capacity_pos
  have hpos {it : Item} (hit : s.l1.get it.pageIndex = some it) : 0 < s.l1.pageCacheSize := by
    rw [h.size]
    exact List.length_pos_of_mem ((h.queued it.pageIndex).mpr ⟨it, hit⟩)
  cases hr with
  | skip hlt => exact hlt
  | clean hit _ _ _ _ _ =>
      have := hpos hit
      show s.l1.pageCacheSize - 1 < _
      omega
  | dirty hit _ _ _ _ _ _ =>
      have := hpos hit
      show s.l1.pageCacheSize - 1 < _
      omega

/-- 参照のあるページの項目は残る。 -/
theorem Room.get (h : s.Wf cfg) (hr : Room cfg G s s') (hq : s.l1.refCount q ≠ 0) : s'.l1.get q = s.l1.get q := by
  have hne {it : Item} (hz : s.l1.refCount it.pageIndex = 0) : q ≠ it.pageIndex := by
    rintro rfl
    exact hq hz
  cases hr with
  | skip _ => rfl
  | clean _ hz _ _ _ _ => rw [State.get_drop h _, if_neg (hne hz)]
  | dirty _ hz _ _ _ _ _ =>
      rw [State.get_drop h.writeBack _, if_neg (hne hz)]
      rfl

/-- 参照のあるページの変更の印は残る。 -/
theorem Room.tag (h : s.Wf cfg) (hr : Room cfg G s s') (hg : s.l1.get q = some it) (hq : s.l1.refCount q ≠ 0)
    (ht : tagBit (s.epcArr it.epc) = true) : tagBit (s'.epcArr it.epc) = true := by
  cases hr with
  | skip _ => exact ht
  | clean _ _ _ _ _ _ => exact ht
  | @dirty jt r e hit hz _ _ _ _ _ =>
      -- 書き出した項目には参照がないので、枠は異なる。
      have hne : it.epc ≠ jt.epc := by
        intro he
        cases h.epc_inj q jt.pageIndex it jt hg hit he
        exact hq hz
      show tagBit (Function.update s.epcArr jt.epc _ it.epc) = true
      rw [Function.update_of_ne hne]
      exact ht

/-! ## 項目を加える -/

theorem State.get_install {l : List Nat} {e : Option Seal} (hg : s.l1.get p = none) (q : Int) :
    (s.install p i l e).l1.get q = if q = p then some ⟨p, i⟩ else s.l1.get q := by
  by_cases hq : q = p
  · subst hq
    rw [if_pos rfl]
    exact Table.get_append_self (x := (⟨q, i⟩ : Item)) hg
  · rw [if_neg hq]
    exact Table.get_append_ne hq

theorem State.Wf.install {l : List Nat} {e : Option Seal} (h : s.Wf cfg) (hg : s.l1.get p = none)
    (hf : s.freeEpcPages = i :: l) (hp : 0 ≤ p ∧ p < cfg.poolPages)
    (hroom : s.l1.pageCacheSize < cfg.cacheCapacity - maxNumOfThreadsOptimization) :
    (s.install p i l e).Wf cfg := by
  have hget {q : Int} := State.get_install (i := i) (l := l) (e := e) hg q
  have hnd := h.freeNodup
  rw [hf, List.nodup_cons] at hnd
  have hsz := h.size
  have hfc := h.free_count
  rw [hf, List.length_cons] at hfc
  have hlt : s.l1.usedPages.rear - s.l1.usedPages.front < s.l1.usedPages.size := by
    rw [h.ringSize, ← Ring.toList_length]
    omega
  have hlist : (s.install p i l e).l1.usedPages.toList = s.l1.usedPages.toList ++ [p] :=
    Ring.toList_push h.ring hlt
  have hfree {q : Int} {jt : Item} (hq : s.l1.get q = some jt) : jt.epc ≠ i ∧ jt.epc ∉ l := by
    have := h.free_apart q jt hq
    rw [hf, List.mem_cons, not_or] at this
    exact this
  refine ⟨h.slots, h.table.append hg, h.ring.push hlt, h.ringSize, ?_, ?_, ?_, ?_, ?_, ?_, hnd.2, ?_, ?_, ?_⟩
  · intro q
    rw [hlist, hget, List.mem_append, List.mem_singleton, h.queued]
    by_cases hq : q = p
    · subst hq
      simp
    · simp [hq]
  · rw [hlist]
    refine List.nodup_append.mpr ⟨h.queueNodup, List.nodup_singleton p, ?_⟩
    rintro q hq r hr rfl
    cases List.mem_singleton.mp hr
    obtain ⟨jt, hjt⟩ := (h.queued _).mp hq
    rw [hg] at hjt
    cases hjt
  · rw [hlist, List.length_append, ← hsz]
    rfl
  · show s.l1.pageCacheSize + 1 ≤ _
    omega
  · intro q jt hq
    rw [hget] at hq
    split at hq
    · rename_i heq
      rw [heq]
      exact hp
    · exact h.page_range q jt hq
  · intro q q' jt jt' hq hq' heq
    rw [hget] at hq hq'
    split at hq
    · cases hq
      split at hq'
      · rename_i h₁ h₂
        rw [h₁, h₂]
      · exact absurd heq.symm (hfree hq').1
    · split at hq'
      · cases hq'
        exact absurd heq (hfree hq).1
      · exact h.epc_inj q q' jt jt' hq hq' heq
  · intro q jt hq
    rw [hget] at hq
    split at hq
    · cases hq
      exact hnd.1
    · exact (hfree hq).2
  · intro j hj
    exact h.free_clean j (by rw [hf]; exact List.mem_cons_of_mem i hj)
  · show l.length + (s.l1.pageCacheSize + 1) = _
    omega

/-! ## `deref` -/

theorem Fetch.wf {t : State} (h : s.Wf cfg) (hd : a.Derefable cfg) (hf : Fetch cfg G host s a t i) : t.Wf cfg := by
  cases hf with
  | hit hv hi => exact h
  | minor hv hg => exact h.withRefCount
  | major hv hg hm hl =>
      have hw : (s.relink a.linkedPage? a.target).Wf cfg := h.withRefCount
      have hr := makeRoom_room hw hm
      have hsize := hr.size_lt hw
      have hn := makeRoom_get_none hm hg
      obtain ⟨rest, e, hfree, _, _, rfl⟩ := (loadPage_ok_iff (by exact hn)).mp hl
      exact State.Wf.install (hr.wf hw).withPool hn hfree ⟨hd.target_nonneg, hd.target_lt⟩ hsize

/-- 参照をたどったページは枠にあり、ほかの参照のあるページの項目は変わらない。 -/
theorem Fetch.get {t : State} (h : s.Wf cfg)
    (hlink : ∀ j, a.prmPtr = some j →
      s.l1.get (a.basePageIndex + a.page) = some ⟨a.basePageIndex + a.page, j⟩)
    (hf : Fetch cfg G host s a t i) : t.l1.get a.target = some ⟨a.target, i⟩ ∧
      ∀ q it, s.l1.get q = some it → t.l1.refCount q ≠ 0 → t.l1.get q = some it := by
  have hframe := hf.frame
  cases hf with
  | hit hv hi =>
      refine ⟨?_, fun q it hq _ => hq⟩
      rw [Aptr.target_of_valid hv]
      exact hlink i hi
  | @minor it hv hg =>
      refine ⟨?_, fun q it hq _ => hq⟩
      have hk := PageCache.pageIndex_of_get hg
      rw [← hk] at hg ⊢
      exact hg
  | @major s₁ _ _ hv hg hm hl =>
      have hr := makeRoom_room (s := s.relink a.linkedPage? a.target) h.withRefCount hm
      have hn := makeRoom_get_none hm hg
      rw [hframe.refCount]
      obtain ⟨rest, e, hfree, _, _, rfl⟩ := (loadPage_ok_iff (by exact hn)).mp hl
      have hget {q : Int} := State.get_install (s := { s₁ with pool := host s₁.pool }) (i := i) (l := rest) (e := e) hn q
      refine ⟨by rw [hget, if_pos rfl], ?_⟩
      intro q it hq hz
      have hne : q ≠ a.target := by
        rintro rfl
        rw [hg] at hq
        cases hq
      rw [hget, if_neg hne]
      exact (hr.get h.withRefCount hz).trans hq

/-- 参照のあるページの変更の印は残る。 -/
theorem Fetch.tag {t : State} (h : s.Wf cfg) (hf : Fetch cfg G host s a t i) (hq : s.l1.get q = some it)
    (hz : t.l1.refCount q ≠ 0) (ht : tagBit (s.epcArr it.epc) = true) : tagBit (t.epcArr it.epc) = true := by
  have hframe := hf.frame
  cases hf with
  | hit hv hi => exact ht
  | minor hv hg => exact ht
  | major hv hg hm hl =>
      rw [hframe.refCount] at hz
      have hr := makeRoom_room (s := s.relink a.linkedPage? a.target) h.withRefCount hm
      have hn := makeRoom_get_none hm hg
      obtain ⟨rest, e, hfree, _, _, rfl⟩ := (loadPage_ok_iff (by exact hn)).mp hl
      have hw : (s.relink a.linkedPage? a.target).Wf cfg := h.withRefCount
      have htag := hr.tag hw hq hz ht
      exact htag

end Eleos.Pager
