import Eleos.Threads.Lemmas.Slots

/-!
# 遷移の前進

不変条件のもとでは、どの遷移も検査で止まらず、次の状態でも不変条件が成り立つ。
-/

namespace Eleos.Threads

open Eleos.Pager

variable {n : Nat} {cfg : Config} {s s' : World n} {t : Fin n} {p q : Int} {i : Nat} {pc : Pc}

/-- 途中のスレッドのページはプールの中にある。 -/
theorem Inv.range (h : Inv cfg s) (hpin : 0 < (s.threads t).pc.pin p) : 0 ≤ p ∧ p < cfg.poolPages :=
  (h.threads t).pinned p (by unfold Thread.pin; omega)

/-- 同じページを参照したまま位置だけが変わったスレッド。 -/
theorem Inv.ok_move (h : Inv cfg s) (hpin : ∀ q, pc.pin q = (s.threads t).pc.pin q)
    (hfound : ∀ p i, pc = .found p i → ∃ it, s.cache.get p = some it)
    (hback : ∀ p i e, pc = .giveBack p i e → s.cache.get p = some ⟨p, e⟩) (hinc : ∀ p, pc ≠ .inc p)
    (hdec : ∀ q p, pc ≠ .dec q p) : Thread.Ok cfg s.cache ⟨pc, (s.threads t).links⟩ :=
  (h.threads t).move (fun q hq => h.range (t := t) (hpin q ▸ hq)) hfound hback (fun p he => absurd he (hinc p))
    fun q p he => absurd he (hdec q p)

theorem Inv.get_of_mem (h : Inv cfg s) (hq : 0 < (s.cache.table.items.map Item.pageIndex).count q) :
    ∃ it, s.cache.get q = some it := by
  obtain ⟨it, hit, rfl⟩ := Multiset.mem_map.mp (Multiset.count_pos.mp hq)
  exact ⟨it, (Table.mem_items_iff h.cache.table).mp hit⟩

/-- 手に持つページは表にある。 -/
theorem Inv.get_of_hand (h : Inv cfg s) (hq : (s.threads t).hand? = some q) : ∃ it, s.cache.get q = some it := by
  have h1 := h.queue q
  have h2 : (s.threads t).hand q ≤ tally (Thread.hand q) s.threads := le_tally t
  have h3 : (s.threads t).hand q = 1 := by simp [Thread.hand, hq]
  exact h.get_of_mem (by omega)

/-- 参照の数だけが変わる三つの遷移の形。 -/
theorem Inv.setRefCount {g : UInt8 → UInt8} (h : Inv cfg s) (hp : 0 ≤ p ∧ p < cfg.poolPages) :
    s.cache.setRefCount p g =
      .ok { s.cache with refCount := Function.update s.cache.refCount p (g (s.cache.refCount p)) } :=
  PageCache.setRefCount_ok_iff.mpr ⟨⟨hp.1, by rw [h.cache.store]; exact hp.2⟩, rfl⟩

theorem refCount_dec {r : Int → UInt8} {a b : Int → Nat} (hq : ∀ p, a p = b p + if q = p then 1 else 0) (p : Int) :
    Function.update r q (r q - 1) p + UInt8.ofNat (a p) = r p + UInt8.ofNat (b p) := by
  rw [hq p]
  by_cases h : q = p
  · subst h
    rw [Function.update_self, if_pos rfl, UInt8.ofNat_add]
    have : r q - 1 + (UInt8.ofNat (b q) + UInt8.ofNat 1) = (r q - 1 + 1) + UInt8.ofNat (b q) := by
      rw [UInt8.add_assoc, UInt8.add_comm 1]
      rfl
    rw [this, UInt8.sub_add_cancel]
  · rw [Function.update_of_ne (Ne.symm h), if_neg h, Nat.add_zero]

theorem refCount_inc {r : Int → UInt8} {a b : Int → Nat} (hq : ∀ p, b p = a p + if q = p then 1 else 0) (p : Int) :
    Function.update r q (r q + 1) p + UInt8.ofNat (a p) = r p + UInt8.ofNat (b p) := by
  rw [hq p]
  by_cases h : q = p
  · subst h
    rw [Function.update_self, if_pos rfl, UInt8.ofNat_add, UInt8.add_assoc]
    congr 1
    exact UInt8.add_comm _ _
  · rw [Function.update_of_ne (Ne.symm h), if_neg h, Nat.add_zero]

/-! ## 一つの遷移 -/

/-- スレッド `t` の遷移は、釣り合った次の状態に進む。 -/
def Goes (cfg : Config) (s : World n) (t : Fin n) (r : Except Stop (World n)) : Prop :=
  ∃ c f th, r = .ok (s.put t c f th) ∧ Balanced cfg s t c f th

theorem Inv.goes_start {a : Act} (h : Inv cfg s) (hpc : (s.threads t).pc = .idle) (ha : a.Valid cfg (s.threads t)) :
    Goes cfg s t (s.start t a) := by
  have hok := h.threads t
  have herase {k : Nat} {l : Int × Nat} (hk : (s.threads t).links[k]? = some l) (p : Int) :
      (s.threads t).pin p = (((s.threads t).links.eraseIdx k).map Prod.fst).count p + if l.1 = p then 1 else 0 := by
    obtain ⟨hlt, rfl⟩ := List.getElem?_eq_some_iff.mp hk
    have hperm := (List.getElem_cons_eraseIdx_perm hlt).map Prod.fst
    have hc := hperm.count_eq p
    rw [List.map_cons, List.count_cons] at hc
    simp only [Thread.pin, hpc, Pc.pin, beq_iff_eq] at hc ⊢
    omega
  have hokErase {k : Nat} {l : Int × Nat} {pc : Pc} (hk : (s.threads t).links[k]? = some l)
      (hpin : ∀ p, pc.pin p = if l.1 = p then 1 else 0) (hf : ∀ p i, pc ≠ .found p i)
      (hb : ∀ p i e, pc ≠ .giveBack p i e) (hi : ∀ p, pc ≠ .inc p)
      (hd : ∀ q p, pc = .dec q p → 0 ≤ p ∧ p < cfg.poolPages) :
      Thread.Ok cfg s.cache ⟨pc, (s.threads t).links.eraseIdx k⟩ := by
    refine ⟨?_, fun p i he => absurd he (hf p i), fun p i e he => absurd he (hb p i e),
      fun p he => absurd he (hi p), ?_, hd⟩
    · intro m hm
      exact hok.links m (List.mem_of_mem_eraseIdx hm)
    · intro p hp
      refine hok.pinned p ?_
      rw [herase hk p]
      simp only [Thread.pin, hpin] at hp
      omega
  cases a with
  | fault k p =>
      obtain ⟨hk, hp⟩ := ha
      cases k with
      | none =>
          refine ⟨_, _, _, rfl, .bare h (by rw [hpc]; trivial) (by trivial) (fun q => ?_) ?_⟩
          · simp [Thread.pin, Pc.pin, hpc]
          · exact hok.move (by simp [Pc.pin]) (by simp) (by simp) (by rintro q ⟨⟩; exact hp) (by simp)
      | some k =>
          obtain ⟨l, hl⟩ : ∃ l, (s.threads t).links[k]? = some l := ⟨_, List.getElem?_eq_getElem (hk k rfl)⟩
          refine ⟨_, _, _, by simp only [World.start, hl]; rfl,
            .bare h (by rw [hpc]; trivial) (by trivial) (fun q => ?_) ?_⟩
          · rw [herase hl q]
            simp [Thread.pin, Pc.pin]
          · exact hokErase hl (fun p => rfl) (by simp) (by simp) (by simp) (by rintro q r ⟨⟩; exact hp)
  | reset k =>
      obtain ⟨l, hl⟩ : ∃ l, (s.threads t).links[k]? = some l := ⟨_, List.getElem?_eq_getElem ha⟩
      refine ⟨_, _, _, by simp only [World.start, hl]; rfl,
        .bare h (by rw [hpc]; trivial) (by trivial) (fun q => ?_) ?_⟩
      · rw [herase hl q]
        simp [Thread.pin, Pc.pin]
      · exact hokErase hl (fun p => rfl) (by simp) (by simp) (by simp) (by simp)

/-- 参照の数を変える遷移。 -/
theorem Inv.goes_refCount (h : Inv cfg s) :
    (∀ old, (s.threads t).pc = .release old → Goes cfg s t (s.advance cfg t)) ∧
    (∀ old p, (s.threads t).pc = .dec old p → Goes cfg s t (s.advance cfg t)) ∧
    ∀ p, (s.threads t).pc = .inc p → Goes cfg s t (s.advance cfg t) := by
  have hok := h.threads t
  refine ⟨?_, ?_, ?_⟩
  · intro old hpc
    have hr := h.range (t := t) (p := old) (by simp [hpc, Pc.pin])
    refine ⟨_, _, _, by simp only [World.advance, hpc, PageCache.decRefCount, h.setRefCount hr]; rfl,
      .bareRefCount h (by rw [hpc]; trivial) (by trivial) (refCount_dec fun p => ?_) ?_⟩
    · simp [Thread.pin, Pc.pin, hpc]
    · exact hok.move (by simp [Pc.pin]) (by simp) (by simp) (by simp) (by simp)
  · intro old p hpc
    have hr := h.range (t := t) (p := old) (by simp [hpc, Pc.pin])
    refine ⟨_, _, _, by simp only [World.advance, hpc, PageCache.decRefCount, h.setRefCount hr]; rfl,
      .bareRefCount h (by rw [hpc]; trivial) (by trivial) (refCount_dec fun p => ?_) ?_⟩
    · simp [Thread.pin, Pc.pin, hpc]
    · exact hok.move (by simp [Pc.pin]) (by simp) (by simp) (by rintro q ⟨⟩; exact hok.dec _ _ hpc) (by simp)
  · intro p hpc
    have hr := hok.inc p hpc
    refine ⟨_, _, _, by simp only [World.advance, hpc, PageCache.incRefCount, h.setRefCount hr]; rfl,
      .bareRefCount h (by rw [hpc]; trivial) (by trivial) (refCount_inc fun p => ?_) ?_⟩
    · simp [Thread.pin, Pc.pin, hpc]
    · refine hok.move ?_ (by simp) (by simp) (by simp) (by simp)
      intro q hq
      simp only [Pc.pin] at hq
      split at hq
      · rename_i heq
        rw [← heq]
        exact hr
      · cases hq

theorem Inv.goes_idle (h : Inv cfg s) (hpc : (s.threads t).pc = .idle) : Goes cfg s t (s.advance cfg t) := by
  refine ⟨s.cache, s.freeEpcPages, s.threads t, ?_, .local h (fun _ => rfl) rfl rfl (Or.inl le_rfl) (Or.inl le_rfl)
    (h.threads t)⟩
  simp only [World.advance, hpc, World.put, Function.update_eq_self]

theorem Inv.goes_get (h : Inv cfg s) (hpc : (s.threads t).pc = .get p) : Goes cfg s t (s.advance cfg t) := by
  have hok := h.threads t
  have hr := h.range (t := t) (p := p) (by simp [hpc, Pc.pin])
  cases hg : s.cache.get p with
  | some it =>
      have hk := PageCache.pageIndex_of_get hg
      refine ⟨_, _, _, by simp only [World.advance, hpc, hg]; rfl, .bare h (by rw [hpc]; trivial) (by trivial) ?_ ?_⟩
      · exact Thread.pin_link _ p _ (by simp [hpc, Pc.pin])
      · refine hok.link hr ?_
        rw [hg, ← hk]
  | none =>
      refine ⟨_, _, _, by simp only [World.advance, hpc, hg]; rfl, .bare h (by rw [hpc]; trivial) (by trivial) ?_ ?_⟩
      · exact Thread.pin_pc _ _ (by simp [hpc, Pc.pin])
      · exact h.ok_move (by simp [hpc, Pc.pin]) (by simp) (by simp) (by simp) (by simp)

theorem Inv.goes_check (h : Inv cfg s) (hpc : (s.threads t).pc = .check p) : Goes cfg s t (s.advance cfg t) := by
  have hcap := cfg.capacity_pos
  have hsize := h.cache.size
  by_cases hfull : cfg.cacheCapacity - maxNumOfThreadsOptimization ≤ s.cache.pageCacheSize
  · refine ⟨_, _, _, by simp only [World.advance, hpc, if_pos hfull]; rfl, .local h ?_ ?_ ?_ (Or.inl ?_) (Or.inr ?_) ?_⟩
    · exact Thread.pin_pc _ _ (by simp [hpc, Pc.pin])
    · simp [Thread.hand?, hpc]
    · simp [Thread.slot?, hpc]
    · simp [Thread.token]
    · simp only [maxNumOfThreadsOptimization] at *
      omega
    · exact h.ok_move (by simp [hpc, Pc.pin]) (by simp) (by simp) (by simp) (by simp)
  · refine ⟨_, _, _, by simp only [World.advance, hpc, if_neg hfull]; rfl, .local h ?_ ?_ ?_ (Or.inr ?_) (Or.inl ?_) ?_⟩
    · exact Thread.pin_pc _ _ (by simp [hpc, Pc.pin])
    · simp [Thread.hand?, hpc]
    · simp [Thread.slot?, hpc]
    · simp only [maxNumOfThreadsOptimization] at *
      omega
    · simp [Thread.evicting]
    · exact h.ok_move (by simp [hpc, Pc.pin]) (by simp) (by simp) (by simp) (by simp)

/-! ## 追い出し -/

theorem Inv.goes_dequeue (hcap : 32 ≤ cfg.cacheCapacity) (h : Inv cfg s) (hpc : (s.threads t).pc = .dequeue p) :
    Goes cfg s t (s.advance cfg t) := by
  have hev : 1 ≤ tally Thread.evicting s.threads := by
    have := le_tally (f := Thread.evicting) (s := s.threads) t
    simpa [Thread.evicting, hpc] using this
  -- 取り出そうとするスレッドのほかは、追い出し中のスレッドだけがページを手に持つ。
  have hhands : tally Thread.hands s.threads ≤ tally Thread.evicting s.threads :=
    tally_mono fun u => (s.threads u).hands_le_evicting
  have hfloor := h.floor hev
  have hlen := h.queueLen
  have hw := h.cache.ring
  have hlt : s.cache.usedPages.front < s.cache.usedPages.rear := by
    rw [Ring.toList_length] at hlen
    omega
  have hpop := Ring.toList_pop hlt
  have hdeq : UsedPagesQueue.dequeue s.cache.usedPages = .ok (s.cache.usedPages.top, s.cache.usedPages.pop) :=
    UsedPagesQueue.dequeue_ok_iff.mpr ⟨by omega, rfl, rfl⟩
  refine ⟨_, _, _, by simp only [World.advance, hpc, hdeq]; rfl,
    .withQueue h ?_ (hw.pop hlt) rfl (fun q => ?_) ?_ ?_ ?_ ?_ ?_⟩
  · exact Thread.pin_pc _ _ (by simp [hpc, Pc.pin])
  · rw [hpop, List.count_cons]
    simp [Thread.hand, Thread.hand?, hpc]
  · rw [hpop, List.length_cons]
    simp [Thread.hands, Thread.hand?, hpc]
  · simp [Thread.slot?, hpc]
  · simp [Thread.token]
  · simp [Thread.evicting, hpc]
  · exact h.ok_move (by simp [hpc, Pc.pin]) (by simp) (by simp) (by simp) (by simp)

theorem Inv.goes_enqueue (h : Inv cfg s) (hpc : (s.threads t).pc = .enqueue p q) :
    Goes cfg s t (s.advance cfg t) := by
  have hhand : 1 ≤ tally Thread.hands s.threads := by
    have := le_tally (f := Thread.hands) (s := s.threads) t
    simpa [Thread.hands, Thread.hand?, hpc] using this
  have hlen := h.queueLen
  have htok := h.tokens
  have hw := h.cache.ring
  have hroom := h.cache.room (by omega)
  have henq : UsedPagesQueue.enqueue s.cache.usedPages q = .ok (s.cache.usedPages.push q) :=
    UsedPagesQueue.enqueue_ok_iff.mpr ⟨by omega, rfl⟩
  refine ⟨_, _, _, by simp only [World.advance, hpc, henq]; rfl,
    .withQueue h ?_ (hw.push hroom) rfl (fun r => ?_) ?_ ?_ ?_ ?_ ?_⟩
  · exact Thread.pin_pc _ _ (by simp [hpc, Pc.pin])
  · rw [Ring.toList_push hw hroom, List.count_append, List.count_singleton]
    simp [Thread.hand, Thread.hand?, hpc]
  · rw [Ring.toList_push hw hroom, List.length_append]
    simp [Thread.hands, Thread.hand?, hpc]
  · simp [Thread.slot?, hpc]
  · simp [Thread.token]
  · simp [Thread.evicting, hpc]
  · exact h.ok_move (by simp [hpc, Pc.pin]) (by simp) (by simp) (by simp) (by simp)

theorem Inv.goes_select (h : Inv cfg s) (hpc : (s.threads t).pc = .select p q) :
    Goes cfg s t (s.advance cfg t) := by
  obtain ⟨it, hit⟩ := h.get_of_hand (t := t) (q := q) (by simp [Thread.hand?, hpc])
  have hk := PageCache.pageIndex_of_get hit
  by_cases hz : s.cache.refCount q > 0
  · refine ⟨_, _, _, by simp only [World.advance, hpc, if_pos hz]; rfl, .local h ?_ ?_ ?_ (Or.inl ?_) (Or.inl ?_) ?_⟩
    · exact Thread.pin_pc _ _ (by simp [hpc, Pc.pin])
    · simp [Thread.hand?, hpc]
    · simp [Thread.slot?, hpc]
    · simp [Thread.token]
    · simp [Thread.evicting, hpc]
    · exact h.ok_move (by simp [hpc, Pc.pin]) (by simp) (by simp) (by simp) (by simp)
  · have hz0 : s.cache.refCount q = 0 := by
      apply UInt8.toNat_inj.mp
      simpa [UInt8.lt_iff_toNat_lt] using hz
    have hitems := Table.items_remove h.cache.table hit
    have hremove : s.cache.remove q = .ok { s.cache with
        table := s.cache.table.remove Item.pageIndex q, pageCacheSize := s.cache.pageCacheSize - 1 } := by
      simp [PageCache.remove, hit]
    have hcard := congrArg Multiset.card hitems
    rw [Multiset.card_cons] at hcard
    have hkeep {r : Int} {jt : Item} (hr : s.cache.get r = some jt) (hne : r ≠ q) :
        Table.get Item.pageIndex (s.cache.table.remove Item.pageIndex q) r = some jt := by
      rw [Table.get_remove_ne hne]
      exact hr
    have hpinned {r : Int} (hr : 0 < (s.threads t).pin r) : r ≠ q := by
      rintro rfl
      exact h.refCount_ne_zero hr hz0
    refine ⟨_, _, _, by simp only [World.advance, hpc, if_neg hz, hit, hremove]; rfl, ?_⟩
    have hnew : Thread.Ok cfg { s.cache with
        table := s.cache.table.remove Item.pageIndex q, pageCacheSize := s.cache.pageCacheSize - 1 }
        ⟨.push p it.epc, (s.threads t).links⟩ := by
      have hok : Thread.Ok cfg s.cache ⟨.push p it.epc, (s.threads t).links⟩ :=
        h.ok_move (by simp [hpc, Pc.pin]) (by simp) (by simp) (by simp) (by simp)
      refine ⟨?_, by simp, by simp, by simp, hok.pinned, by simp⟩
      intro l hl
      refine hkeep (hok.links l hl) (hpinned ?_)
      have : 0 < ((s.threads t).links.map Prod.fst).count l.1 :=
        List.count_pos_iff.mpr (List.mem_map.mpr ⟨l, hl, rfl⟩)
      unfold Thread.pin
      omega
    refine ⟨h.cache.remove hit, fun r => ?_, fun r => ?_, ?_, fun i => ?_, ?_, Or.inl ?_, Or.inl ⟨?_, ?_⟩, ?_, hnew⟩
    · simp only [Thread.pin, Pc.pin, hpc]
    · rw [hitems, Multiset.map_cons, Multiset.count_cons, hk]
      simp only [Thread.hand, Thread.hand?, hpc, Option.some.injEq, reduceCtorEq, ↓reduceIte, eq_comm (a := r)]
      omega
    · rw [hcard]
      simp only [Thread.hands, Thread.hand?, hpc, reduceCtorEq, ↓reduceIte]
      omega
    · rw [hitems, Multiset.map_cons, Multiset.count_cons]
      simp only [Thread.hold, Thread.slot?, hpc, Option.some.injEq, reduceCtorEq, ↓reduceIte, eq_comm (a := i)]
      omega
    · rw [hcard]
      simp only [Thread.holds, Thread.slot?, hpc, reduceCtorEq, ↓reduceIte]
      omega
    · rw [hcard]
      simp only [Thread.token, hpc]
      omega
    · simp [Thread.evicting]
    · rw [hcard]
      simp only [Thread.evicting, hpc]
      omega
    · intro r jt hr
      by_cases hne : r = q
      · exact Or.inr (hne ▸ hz0)
      · exact Or.inl (hkeep hr hne)

/-! ## 空きの枠 -/

theorem Inv.goes_push (h : Inv cfg s) (hpc : (s.threads t).pc = .push p i) : Goes cfg s t (s.advance cfg t) := by
  refine ⟨_, _, _, by simp only [World.advance, hpc]; rfl, .withFree h ?_ ?_ (fun j => ?_) ?_ ?_ ?_ ?_⟩
  · exact Thread.pin_pc _ _ (by simp [hpc, Pc.pin])
  · simp [Thread.hand?, hpc]
  · simp [Thread.hold, Thread.slot?, hpc, List.count_cons]
  · simp [Thread.holds, Thread.slot?, hpc]
  · simp [Thread.token, hpc]
  · simp [Thread.evicting]
  · exact h.ok_move (by simp [hpc, Pc.pin]) (by simp) (by simp) (by simp) (by simp)

theorem Inv.goes_pop (h : Inv cfg s) (hpc : (s.threads t).pc = .pop p) : Goes cfg s t (s.advance cfg t) := by
  -- このスレッドは枠を使ってよいが、まだ手に持っていない。
  have hlt : tally Thread.holds s.threads < tally Thread.token s.threads := by
    have h1 := tally_update (f := Thread.holds) (s := s.threads) (t := t) (x := ⟨.push p 0, []⟩)
    have h2 := tally_update (f := Thread.token) (s := s.threads) (t := t) (x := ⟨.push p 0, []⟩)
    have h3 : tally Thread.holds (Function.update s.threads t ⟨.push p 0, []⟩) ≤
      tally Thread.token (Function.update s.threads t ⟨.push p 0, []⟩) := tally_mono fun u => Thread.holds_le_token _
    simp only [Thread.holds, Thread.slot?, Thread.token, hpc, reduceCtorEq, ↓reduceIte] at h1 h2
    omega
  have hlen := h.slotLen
  have htok := h.tokens
  cases hf : s.freeEpcPages with
  | nil =>
      rw [hf, List.length_nil] at hlen
      omega
  | cons i rest =>
      refine ⟨_, _, _, by simp only [World.advance, hpc, hf]; rfl, .withFree h ?_ ?_ (fun j => ?_) ?_ ?_ ?_ ?_⟩
      · exact Thread.pin_pc _ _ (by simp [hpc, Pc.pin])
      · simp [Thread.hand?, hpc]
      · simp [hf, Thread.hold, Thread.slot?, hpc, List.count_cons]
      · simp [hf, Thread.holds, Thread.slot?, hpc]
      · simp [Thread.token, hpc]
      · simp [Thread.evicting]
      · exact h.ok_move (by simp [hpc, Pc.pin]) (by simp) (by simp) (by simp) (by simp)

theorem Inv.goes_giveBack {e : Nat} (h : Inv cfg s) (hpc : (s.threads t).pc = .giveBack p i e) :
    Goes cfg s t (s.advance cfg t) := by
  have hok := h.threads t
  have hr := h.range (t := t) (p := p) (by simp [hpc, Pc.pin])
  refine ⟨_, _, _, by simp only [World.advance, hpc]; rfl, .withFree h ?_ ?_ (fun j => ?_) ?_ ?_ ?_ ?_⟩
  · exact Thread.pin_link _ p _ (by simp [hpc, Pc.pin])
  · simp [Thread.hand?, hpc]
  · simp [Thread.hold, Thread.slot?, hpc, List.count_cons]
  · simp [Thread.holds, Thread.slot?, hpc]
  · simp [Thread.token]
  · simp [Thread.evicting]
  · exact hok.link hr (hok.giveBack p i e hpc)

/-! ## 表への追加 -/

theorem Inv.goes_found (h : Inv cfg s) (hpc : (s.threads t).pc = .found p i) : Goes cfg s t (s.advance cfg t) := by
  obtain ⟨it, hit⟩ := (h.threads t).found p i hpc
  have hk := PageCache.pageIndex_of_get hit
  refine ⟨_, _, _, by simp only [World.advance, hpc, hit]; rfl, .local h ?_ ?_ ?_ (Or.inl ?_) (Or.inl ?_) ?_⟩
  · exact Thread.pin_pc _ _ (by simp [hpc, Pc.pin])
  · simp [Thread.hand?, hpc]
  · simp [Thread.slot?, hpc]
  · simp [Thread.token, hpc]
  · simp [Thread.evicting]
  · refine h.ok_move (by simp [hpc, Pc.pin]) (by simp) ?_ (by simp) (by simp)
    rintro q j e ⟨⟩
    rw [hit, ← hk]

theorem Inv.goes_tryAdd (h : Inv cfg s) (hpc : (s.threads t).pc = .tryAdd p i) :
    Goes cfg s t (s.advance cfg t) := by
  have hok := h.threads t
  have hr := h.range (t := t) (p := p) (by simp [hpc, Pc.pin])
  cases hg : s.cache.get p with
  | some it =>
      have hadd : s.cache.tryAdd p i = .ok (false, s.cache) := by simp [PageCache.tryAdd, hg]
      refine ⟨_, _, _, by simp only [World.advance, hpc, hadd]; rfl, .local h ?_ ?_ ?_ (Or.inl ?_) (Or.inl ?_) ?_⟩
      · exact Thread.pin_pc _ _ (by simp [hpc, Pc.pin])
      · simp [Thread.hand?, hpc]
      · simp [Thread.slot?, hpc]
      · simp [Thread.token, hpc]
      · simp [Thread.evicting]
      · refine h.ok_move (by simp [hpc, Pc.pin]) ?_ (by simp) (by simp) (by simp)
        rintro q j ⟨⟩
        exact ⟨it, hg⟩
  | none =>
      have htok := h.tokens
      have hone : 1 ≤ tally Thread.token s.threads := by
        have := le_tally (f := Thread.token) (s := s.threads) t
        simpa [Thread.token, hpc] using this
      have hlen := h.queueLen
      have hw := h.cache.ring
      have hroom := h.cache.room (by omega)
      have hadd := PageCache.tryAdd_ok_of_room (i := i) hg (by omega)
      have hitems := Table.items_append (x := (⟨p, i⟩ : Item)) h.cache.table
      have hcard := congrArg Multiset.card hitems
      rw [Multiset.card_cons] at hcard
      have hkeep {r : Int} {jt : Item} (hjt : s.cache.get r = some jt) :
          Table.get Item.pageIndex (s.cache.table.append Item.pageIndex ⟨p, i⟩) r = some jt := by
        have hne : r ≠ p := by
          rintro rfl
          cases hg.symm.trans hjt
        rw [Table.get_append_ne hne]
        exact hjt
      have hself : Table.get Item.pageIndex (s.cache.table.append Item.pageIndex ⟨p, i⟩) p = some ⟨p, i⟩ :=
        Table.get_append_self (x := (⟨p, i⟩ : Item)) hg
      refine ⟨_, _, _, by simp only [World.advance, hpc, hadd]; rfl, ?_⟩
      refine ⟨⟨h.cache.table.append hg, hw.push hroom, h.cache.ringSize, h.cache.store, ?_⟩, fun r => ?_, fun r => ?_,
        ?_, fun j => ?_, ?_, Or.inl ?_, Or.inl ⟨?_, ?_⟩, fun r jt hr => Or.inl (hkeep hr), ?_⟩
      · have := h.cache.size
        simp only
        omega
      · rw [Thread.pin_link _ p _ (by simp [hpc, Pc.pin])]
      · rw [Ring.toList_push hw hroom, hitems, Multiset.map_cons, Multiset.count_cons, List.count_append,
          List.count_singleton]
        simp only [Thread.hand, Thread.hand?, hpc, beq_iff_eq, reduceCtorEq, ↓reduceIte, eq_comm (a := r)]
        omega
      · rw [Ring.toList_push hw hroom, hcard, List.length_append, List.length_singleton]
        simp only [Thread.hands, Thread.hand?, hpc, ↓reduceIte]
        omega
      · rw [hitems, Multiset.map_cons, Multiset.count_cons]
        simp only [Thread.hold, Thread.slot?, hpc, Option.some.injEq, reduceCtorEq, ↓reduceIte, eq_comm (a := j)]
        omega
      · rw [hcard]
        simp only [Thread.holds, Thread.slot?, hpc, reduceCtorEq, ↓reduceIte]
        omega
      · rw [hcard]
        simp only [Thread.token, hpc]
        omega
      · simp [Thread.evicting]
      · rw [hcard]
        simp only [Thread.evicting, hpc]
        omega
      · have hok' := hok.links
        refine Thread.Ok.link ⟨fun l hl => hkeep (hok.links l hl), by simp [hpc], by simp [hpc], by simp [hpc],
          hok.pinned, by simp [hpc]⟩ hr hself

/-- 不変条件のもとで、どの遷移も進む。 -/
theorem Inv.goes {r : Except Stop (World n)} (hcap : 32 ≤ cfg.cacheCapacity) (h : Inv cfg s) (hs : Step cfg s t r) :
    Goes cfg s t r := by
  cases hs with
  | start a hpc ha => exact h.goes_start hpc ha
  | advance =>
      cases hpc : (s.threads t).pc with
      | idle => exact h.goes_idle hpc
      | release old => exact h.goes_refCount.1 old hpc
      | dec old p => exact h.goes_refCount.2.1 old p hpc
      | inc p => exact h.goes_refCount.2.2 p hpc
      | get p => exact h.goes_get hpc
      | check p => exact h.goes_check hpc
      | dequeue p => exact h.goes_dequeue hcap hpc
      | select p q => exact h.goes_select hpc
      | enqueue p q => exact h.goes_enqueue hpc
      | push p i => exact h.goes_push hpc
      | pop p => exact h.goes_pop hpc
      | tryAdd p i => exact h.goes_tryAdd hpc
      | found p i => exact h.goes_found hpc
      | giveBack p i e => exact h.goes_giveBack hpc

end Eleos.Threads
