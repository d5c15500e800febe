import Eleos.Pager.Fifo
import Eleos.Pager.Lemmas.Cache

/-!
# 待ち行列と表の一致

`PageCache` の各操作は、待ち行列、個数、連鎖の一致を保つ。
-/

namespace Eleos.Pager

namespace PageCache

variable {c c' : PageCache} {p q : Int} {it : Item} {i : Nat}

/-- 待ち行列と表の不変条件。 -/
structure Wf (c : PageCache) : Prop where
  hash : c.table.hash = bucketIndex c.table.size
  table : c.table.Wf Item.pageIndex
  ring : c.usedPages.Wf
  queued : ∀ p, p ∈ c.usedPages.toList ↔ ∃ it, c.get p = some it
  once : c.usedPages.toList.Nodup
  size : c.pageCacheSize = c.table.items.card

theorem init_wf {n b k : Nat} (hn : 0 < n) : (init n b k).Wf where
  hash := rfl
  table := ⟨fun p => Nat.mod_lt _ hn, fun _ _ hx => absurd hx List.not_mem_nil, fun _ => List.nodup_nil⟩
  ring := ⟨Nat.le_refl 0, Nat.zero_le _⟩
  queued := fun p => iff_of_false List.not_mem_nil (by rintro ⟨_, ⟨⟩⟩)
  once := List.nodup_nil
  size := by simp [init, Table.items]

theorem Wf.resident_iff (h : c.Wf) : c.Resident p ↔ ∃ it, c.get p = some it := by
  constructor
  · rintro ⟨b, _, it, hit, rfl⟩
    have hb := h.table.home b it hit
    cases hg : c.get it.pageIndex with
    | none =>
        rw [← hb] at hit
        exact absurd rfl (Table.get_eq_none_iff.mp hg it hit)
    | some jt => exact ⟨jt, rfl⟩
  · rintro ⟨it, hg⟩
    exact ⟨_, h.table.small p, it, List.mem_of_find?_eq_some hg, pageIndex_of_get hg⟩

/-! ## 操作 -/

theorem Wf.setRefCount {f : UInt8 → UInt8} (h : c.Wf) (hs : c.setRefCount p f = .ok c') : c'.Wf := by
  obtain ⟨_, rfl⟩ := setRefCount_ok_iff.mp hs
  exact ⟨h.hash, h.table, h.ring, h.queued, h.once, h.size⟩

theorem Wf.tryAdd {b : Bool} (h : c.Wf) (hs : c.tryAdd p i = .ok (b, c')) : c'.Wf := by
  cases hg : c.get p with
  | some it =>
      unfold PageCache.tryAdd at hs
      rw [hg] at hs
      cases hs
      exact h
  | none =>
      obtain ⟨_, hne, rfl⟩ := tryAdd_of_none hg hs
      have hlt : c.usedPages.rear - c.usedPages.front < c.usedPages.size := Nat.lt_of_le_of_ne h.ring.room hne
      have hlist := Ring.toList_push (x := p) h.ring hlt
      refine ⟨h.hash, h.table.append hg, h.ring.push hlt, ?_, ?_, ?_⟩
      · intro q
        rw [hlist, List.mem_append, List.mem_singleton, h.queued]
        by_cases hq : q = p
        · subst hq
          exact iff_of_true (Or.inr rfl) ⟨⟨q, i⟩, Table.get_append_self (x := (⟨q, i⟩ : Item)) hg⟩
        · have hget : (c.table.append Item.pageIndex ⟨p, i⟩).get Item.pageIndex q = c.get q := Table.get_append_ne hq
          unfold PageCache.get
          rw [hget]
          exact ⟨fun h => h.resolve_right hq, Or.inl⟩
      · rw [hlist]
        refine List.nodup_append.mpr ⟨h.once, List.nodup_singleton p, ?_⟩
        rintro q hq r hr rfl
        cases List.mem_singleton.mp hr
        obtain ⟨jt, hjt⟩ := (h.queued _).mp hq
        rw [hg] at hjt
        cases hjt
      · rw [Table.items_append h.table, Multiset.card_cons, ← h.size]

/-- 選択のあとの `remove`。待ち行列からは、選んだページだけが消えている。 -/
theorem Wf.evict {d : PageCache} (h : c.Wf) (hs : c.getPageIndexToEvict = .ok (it, d))
    (hr : d.remove it.pageIndex = .ok c') : c'.Wf := by
  obtain ⟨hwr, _, hperm⟩ := getPageIndexToEvict_ring h.ring hs
  obtain ⟨hg, _, r, rfl⟩ := getPageIndexToEvict_ok hs
  obtain ⟨_, _, rfl⟩ := remove_ok hr
  have hnd := hperm.nodup_iff.mpr h.once
  rw [List.nodup_cons] at hnd
  refine ⟨h.hash, h.table.remove, hwr, ?_, hnd.2, ?_⟩
  · intro q
    have hq := (hperm.mem_iff (a := q)).trans (h.queued q)
    rw [List.mem_cons] at hq
    by_cases hqi : q = it.pageIndex
    · subst hqi
      refine iff_of_false hnd.1 ?_
      rintro ⟨jt, hjt⟩
      have hnone : (c.table.remove Item.pageIndex it.pageIndex).get Item.pageIndex it.pageIndex = none :=
        Table.get_remove_self h.table
      exact nomatch hnone.symm.trans hjt
    · have hget : (c.table.remove Item.pageIndex it.pageIndex).get Item.pageIndex q = c.get q :=
        Table.get_remove_ne hqi
      unfold PageCache.get
      rw [hget, ← hq]
      exact ⟨Or.inr, fun h => h.resolve_left hqi⟩
  · have hcard := congrArg Multiset.card (Table.items_remove h.table hg)
    rw [Multiset.card_cons] at hcard
    have hsz := h.size
    show c.pageCacheSize - 1 = (c.table.remove Item.pageIndex it.pageIndex).items.card
    omega

theorem Wf.step {op : CacheOp} (h : c.Wf) (hs : c.step op = .ok c') : c'.Wf := by
  cases op with
  | tryAdd p i =>
      obtain ⟨⟨b, d⟩, hd, he⟩ := bind_ok_iff.mp hs
      cases he
      exact h.tryAdd hd
  | evict =>
      obtain ⟨⟨it, d⟩, hd, he⟩ := bind_ok_iff.mp hs
      exact h.evict hd he
  | inc p => exact h.setRefCount (f := (· + 1)) hs
  | dec p => exact h.setRefCount (f := (· - 1)) hs

theorem Reach.wf {n b k : Nat} (hn : 0 < n) (hr : Reach n b k c) : c.Wf := by
  induction hr with
  | init => exact init_wf hn
  | step _ _ hs ih => exact ih.step hs

theorem Wf.fifo (h : c.Wf) : c.Fifo where
  queued := fun p => (h.queued p).trans h.resident_iff.symm
  once := h.once
  size := h.size
  placed := fun b it hit => by
    rw [← h.hash]
    exact (h.table.home b it hit).symm
  distinct := h.table.nodup
  select := fun p hp hz => by
    have hq := (h.queued p).mpr (h.resident_iff.mp hp)
    obtain ⟨l₁, l₂, it, r, hl, hpre, hz', hg, hsel, hr⟩ :=
      select_first h.ring (fun p hp => (h.queued p).mp hp) hq hz
    refine ⟨l₁, l₂, it, r, hl, hpre, hz', ?_, hsel, hr⟩
    rw [← h.hash]
    exact List.mem_of_find?_eq_some hg

/-! ## `front` と `rear` の折り返し -/

theorem Wf.queueSize {op : CacheOp} (h : c.Wf) (hs : c.step op = .ok c') :
    c'.usedPages.size = c.usedPages.size := by
  cases op with
  | tryAdd p i =>
      obtain ⟨⟨b, d⟩, hd, he⟩ := bind_ok_iff.mp hs
      cases he
      cases hg : c.get p with
      | some it =>
          unfold PageCache.tryAdd at hd
          rw [hg] at hd
          cases hd
          rfl
      | none =>
          obtain ⟨_, _, rfl⟩ := tryAdd_of_none hg hd
          rfl
  | evict =>
      obtain ⟨⟨it, d⟩, hd, he⟩ := bind_ok_iff.mp hs
      obtain ⟨_, _, rfl⟩ := remove_ok he
      exact (getPageIndexToEvict_ring h.ring hd).2.1
  | inc p =>
      obtain ⟨_, rfl⟩ := (setRefCount_ok_iff (f := (· + 1))).mp hs
      rfl
  | dec p =>
      obtain ⟨_, rfl⟩ := (setRefCount_ok_iff (f := (· - 1))).mp hs
      rfl

theorem Reach.queueSize {n b k : Nat} (hn : 0 < n) (hr : Reach n b k c) : c.usedPages.size = k := by
  induction hr with
  | init => rfl
  | step hr _ hs ih => exact ((hr.wf hn).queueSize hs).trans ih

/-- 待ち行列の大きさが 2^64 を割り切れば、到達できるどの状態でも、折り返す計算の結果は折り返さない計算の結果に一致する。 -/
theorem Reach.word {n b k : Nat} (hn : 0 < n) (hk : k ∣ 2 ^ 64) (hlt : k < 2 ^ 64) (hr : Reach n b k c) :
    (∀ x, UsedPagesQueue.enqueueWord (c.usedPages.wrap (2 ^ 64)) x =
      (UsedPagesQueue.enqueue c.usedPages x).map (Ring.wrap (2 ^ 64))) ∧
    UsedPagesQueue.dequeueWord (c.usedPages.wrap (2 ^ 64)) =
      (UsedPagesQueue.dequeue c.usedPages).map fun x => (x.1, x.2.wrap (2 ^ 64)) := by
  have hw := (hr.wf hn).ring
  rw [← hr.queueSize hn] at hk hlt
  constructor
  · intro x
    unfold UsedPagesQueue.enqueueWord UsedPagesQueue.enqueue
    rw [Ring.count_wrap hw hlt, Ring.push_wrap hk, Ring.wrap_size]
    by_cases hfull : c.usedPages.rear - c.usedPages.front = c.usedPages.size
    · rw [if_pos hfull, if_pos hfull]
      rfl
    · rw [if_neg hfull, if_neg hfull]
      rfl
  · unfold UsedPagesQueue.dequeueWord UsedPagesQueue.dequeue
    rw [Ring.top_wrap hk, Ring.pop_wrap]
    by_cases hempty : c.usedPages.front = c.usedPages.rear
    · rw [if_pos hempty, if_pos ((Ring.wrap_empty_iff hw hlt).mpr hempty)]
      rfl
    · rw [if_neg hempty, if_neg fun heq => hempty ((Ring.wrap_empty_iff hw hlt).mp heq)]
      rfl

end PageCache

end Eleos.Pager
