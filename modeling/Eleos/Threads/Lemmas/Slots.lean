import Eleos.Pager.Lemmas.Cache
import Eleos.Threads.System

/-!
# 枠と参照の勘定

空きの並び、表、待ち行列の中身の数と、スレッドの重みの総和の間の等式を不変条件とする。
一つの遷移は一つのスレッドの重みだけを変えるので、共有の側の変化とその重みの変化が釣り合えばよい。
-/

namespace Eleos.Threads

open Eleos.Pager

variable {n : Nat} {cfg : Config} {s s' : World n} {t u : Fin n} {c c' : PageCache} {f : List Nat} {th th' : Thread}
  {p q : Int} {it : Item} {i : Nat}

/-! ## 重み -/

/-- 待ち行列から取り出して手に持つページ。 -/
def Thread.hand? (th : Thread) : Option Int :=
  match th.pc with
  | .select _ q | .enqueue _ q => some q
  | _ => none

def Thread.hand (q : Int) (th : Thread) : Nat := if th.hand? = some q then 1 else 0

def Thread.hands (th : Thread) : Nat := if th.hand? = none then 0 else 1

def Thread.holds (th : Thread) : Nat := if th.slot? = none then 0 else 1

/-- 枠を一つ使ってよいことが決まったスレッド。 -/
def Thread.token (th : Thread) : Nat :=
  match th.pc with
  | .push _ _ | .pop _ | .tryAdd _ _ | .found _ _ | .giveBack _ _ _ => 1
  | _ => 0

/-- 追い出すことを決めて、まだ項目を外していないスレッド。 -/
def Thread.evicting (th : Thread) : Nat :=
  match th.pc with
  | .dequeue _ | .select _ _ | .enqueue _ _ => 1
  | _ => 0

theorem Thread.token_le (th : Thread) : th.token ≤ 1 := by
  unfold Thread.token
  split <;> omega

theorem Thread.evicting_le (th : Thread) : th.evicting ≤ 1 := by
  unfold Thread.evicting
  split <;> omega

theorem Thread.holds_le_token (th : Thread) : th.holds ≤ th.token := by
  unfold Thread.holds Thread.slot? Thread.token
  cases th.pc with
  | _ => simp

theorem Thread.hands_le_evicting (th : Thread) : th.hands ≤ th.evicting := by
  unfold Thread.hands Thread.hand? Thread.evicting
  cases th.pc with
  | _ => simp

/-! ## 不変条件 -/

/-- 表と待ち行列の形。 -/
structure CacheOk (cfg : Config) (c : PageCache) : Prop where
  table : c.table.Wf Item.pageIndex
  ring : c.usedPages.Wf
  ringSize : c.usedPages.size = cfg.cacheCapacity
  store : c.backingStoreSize = cfg.poolPages
  size : c.pageCacheSize = Multiset.card c.table.items

/-- 待ち行列が一杯でない。 -/
theorem CacheOk.room (h : CacheOk cfg c) (hlt : c.usedPages.toList.length < cfg.cacheCapacity) :
    c.usedPages.rear - c.usedPages.front < c.usedPages.size := by
  rw [h.ringSize, ← Ring.toList_length]
  exact hlt

/-- 項目を一つ外した表。 -/
theorem CacheOk.remove (h : CacheOk cfg c) (hit : c.get q = some it) : CacheOk cfg { c with
    table := c.table.remove Item.pageIndex q, pageCacheSize := c.pageCacheSize - 1 } := by
  refine ⟨h.table.remove, h.ring, h.ringSize, h.store, ?_⟩
  have hcard := congrArg Multiset.card (Table.items_remove h.table hit)
  rw [Multiset.card_cons] at hcard
  have := h.size
  simp only
  omega

/-- スレッドの `Aptr` と途中の処理が、表の中身に求めること。 -/
structure Thread.Ok (cfg : Config) (c : PageCache) (th : Thread) : Prop where
  links : ∀ l ∈ th.links, c.get l.1 = some ⟨l.1, l.2⟩
  found : ∀ p i, th.pc = .found p i → ∃ it, c.get p = some it
  giveBack : ∀ p i e, th.pc = .giveBack p i e → c.get p = some ⟨p, e⟩
  inc : ∀ p, th.pc = .inc p → 0 ≤ p ∧ p < cfg.poolPages
  pinned : ∀ p, 0 < th.pin p → 0 ≤ p ∧ p < cfg.poolPages
  dec : ∀ q p, th.pc = .dec q p → 0 ≤ p ∧ p < cfg.poolPages

structure Inv (cfg : Config) (s : World n) : Prop where
  cache : CacheOk cfg s.cache
  refs : ∀ p, s.cache.refCount p = UInt8.ofNat (s.refs p)
  refs_le : ∀ p, s.refs p ≤ 255
  queue : ∀ q, s.cache.usedPages.toList.count q + tally (Thread.hand q) s.threads =
    (s.cache.table.items.map Item.pageIndex).count q
  queueLen : s.cache.usedPages.toList.length + tally Thread.hands s.threads = Multiset.card s.cache.table.items
  slots : ∀ i, s.places i = if i < cfg.cacheCapacity then 1 else 0
  slotLen : s.freeEpcPages.length + Multiset.card s.cache.table.items + tally Thread.holds s.threads =
    cfg.cacheCapacity
  tokens : Multiset.card s.cache.table.items + tally Thread.token s.threads ≤ cfg.cacheCapacity
  floor : 0 < tally Thread.evicting s.threads →
    cfg.cacheCapacity + tally Thread.evicting s.threads ≤ Multiset.card s.cache.table.items + 20
  threads : ∀ t, (s.threads t).Ok cfg s.cache

/-- 参照のあるページの数は 0 でない。 -/
theorem Inv.refCount_ne_zero (h : Inv cfg s) (hp : 0 < (s.threads t).pin p) : s.cache.refCount p ≠ 0 := by
  have hle := h.refs_le p
  have hpos : 0 < s.refs p := lt_of_lt_of_le hp (le_tally (f := Thread.pin p) t)
  intro h0
  have h1 := h.refs p
  rw [h0] at h1
  have h2 := congrArg UInt8.toNat h1
  rw [UInt8.toNat_ofNat'] at h2
  simp at h2
  omega

/-- 釣り合いの条件。 -/
structure Balanced (cfg : Config) (s : World n) (t : Fin n) (c : PageCache) (f : List Nat) (th : Thread) : Prop where
  cache : CacheOk cfg c
  refs : ∀ p, c.refCount p + UInt8.ofNat ((s.threads t).pin p) = s.cache.refCount p + UInt8.ofNat (th.pin p)
  queue : ∀ q, c.usedPages.toList.count q + th.hand q + (s.cache.table.items.map Item.pageIndex).count q =
    s.cache.usedPages.toList.count q + (s.threads t).hand q + (c.table.items.map Item.pageIndex).count q
  queueLen : c.usedPages.toList.length + th.hands + Multiset.card s.cache.table.items =
    s.cache.usedPages.toList.length + (s.threads t).hands + Multiset.card c.table.items
  slots : ∀ i, f.count i + (c.table.items.map Item.epc).count i + th.hold i =
    s.freeEpcPages.count i + (s.cache.table.items.map Item.epc).count i + (s.threads t).hold i
  slotLen : f.length + Multiset.card c.table.items + th.holds =
    s.freeEpcPages.length + Multiset.card s.cache.table.items + (s.threads t).holds
  tokens : Multiset.card c.table.items + th.token ≤ Multiset.card s.cache.table.items + (s.threads t).token ∨
    Multiset.card c.table.items + 10 < cfg.cacheCapacity
  floor : (th.evicting ≤ (s.threads t).evicting ∧
      Multiset.card s.cache.table.items + th.evicting ≤ Multiset.card c.table.items + (s.threads t).evicting) ∨
    cfg.cacheCapacity ≤ Multiset.card c.table.items + 10
  keep : ∀ q it, s.cache.get q = some it → c.get q = some it ∨ s.cache.refCount q = 0
  thread : th.Ok cfg c

/-- 釣り合った遷移は不変条件を保つ。 -/
theorem Balanced.inv (hn : n ≤ 10) (h : Inv cfg s) (hb : Balanced cfg s t c f th)
    (hle : ∀ p, (s.put t c f th).refs p ≤ 255) : Inv cfg (s.put t c f th) := by
  refine ⟨hb.cache, ?_, hle, ?_, ?_, ?_, ?_, ?_, ?_, ?_⟩
  · intro p
    have h1 := hb.refs p
    have h2 : (s.put t c f th).refs p + (s.threads t).pin p = s.refs p + th.pin p := tally_update
    rw [h.refs p, ← UInt8.ofNat_add, ← h2, UInt8.ofNat_add] at h1
    exact UInt8.add_left_inj _ |>.mp h1
  · intro q
    have h1 := hb.queue q
    have h2 := h.queue q
    have h3 : tally (Thread.hand q) (s.put t c f th).threads + (s.threads t).hand q =
      tally (Thread.hand q) s.threads + th.hand q := tally_update
    simp only [World.put] at h3 ⊢
    omega
  · have h1 := hb.queueLen
    have h2 := h.queueLen
    have h3 : tally Thread.hands (s.put t c f th).threads + (s.threads t).hands =
      tally Thread.hands s.threads + th.hands := tally_update
    simp only [World.put] at h3 ⊢
    omega
  · intro i
    have h1 := hb.slots i
    have h2 := h.slots i
    have h3 : tally (Thread.hold i) (s.put t c f th).threads + (s.threads t).hold i =
      tally (Thread.hold i) s.threads + th.hold i := tally_update
    simp only [World.places, World.put] at h2 h3 ⊢
    omega
  · have h1 := hb.slotLen
    have h2 := h.slotLen
    have h3 : tally Thread.holds (s.put t c f th).threads + (s.threads t).holds =
      tally Thread.holds s.threads + th.holds := tally_update
    simp only [World.put] at h3 ⊢
    omega
  · have h2 := h.tokens
    have h3 : tally Thread.token (s.put t c f th).threads + (s.threads t).token =
      tally Thread.token s.threads + th.token := tally_update
    have h4 : tally Thread.token (s.put t c f th).threads ≤ n := tally_le fun _ => Thread.token_le _
    simp only [World.put] at h3 h4 ⊢
    rcases hb.tokens with h1 | h1
    · omega
    · omega
  · intro hpos
    have h2 := h.floor
    have h3 : tally Thread.evicting (s.put t c f th).threads + (s.threads t).evicting =
      tally Thread.evicting s.threads + th.evicting := tally_update
    have h4 : tally Thread.evicting (s.put t c f th).threads ≤ n := tally_le fun _ => Thread.evicting_le _
    simp only [World.put] at hpos h3 h4 ⊢
    rcases hb.floor with ⟨h1, h5⟩ | h1
    · have h6 := h2 (by omega)
      omega
    · omega
  · intro u
    by_cases hu : u = t
    · subst hu
      simp only [World.put, Function.update_self]
      exact hb.thread
    · simp only [World.put, Function.update_of_ne hu]
      have hok := h.threads u
      have hkeep {q : Int} {it : Item} (hq : s.cache.get q = some it) (hpin : 0 < (s.threads u).pin q) :
          c.get q = some it := (hb.keep q it hq).resolve_right (h.refCount_ne_zero hpin)
      refine ⟨?_, ?_, ?_, hok.inc, hok.pinned, hok.dec⟩
      · intro l hl
        refine hkeep (hok.links l hl) ?_
        have : 0 < ((s.threads u).links.map Prod.fst).count l.1 :=
          List.count_pos_iff.mpr (List.mem_map.mpr ⟨l, hl, rfl⟩)
        unfold Thread.pin
        omega
      · intro p i hpc
        obtain ⟨it, hit⟩ := hok.found p i hpc
        exact ⟨it, hkeep hit (by simp [Thread.pin, Pc.pin, hpc])⟩
      · intro p i e hpc
        exact hkeep (hok.giveBack p i e hpc) (by simp [Thread.pin, Pc.pin, hpc])

/-! ## 遷移の種類ごとの釣り合い -/

/-- 共有の側を変えない遷移。 -/
theorem Balanced.local (h : Inv cfg s) (hpin : ∀ p, th.pin p = (s.threads t).pin p)
    (hhand : th.hand? = (s.threads t).hand?) (hslot : th.slot? = (s.threads t).slot?)
    (htoken : th.token ≤ (s.threads t).token ∨ Multiset.card s.cache.table.items + 10 < cfg.cacheCapacity)
    (hev : th.evicting ≤ (s.threads t).evicting ∨ cfg.cacheCapacity ≤ Multiset.card s.cache.table.items + 10)
    (hok : th.Ok cfg s.cache) : Balanced cfg s t s.cache s.freeEpcPages th where
  cache := h.cache
  refs := fun p => by rw [hpin p]
  queue := fun q => by simp only [Thread.hand, hhand]
  queueLen := by simp only [Thread.hands, hhand]
  slots := fun i => by simp only [Thread.hold, hslot]
  slotLen := by simp only [Thread.holds, hslot]
  tokens := htoken.imp_left fun h => by omega
  floor := hev.imp_left fun h => ⟨h, by omega⟩
  keep := fun _ _ hq => Or.inl hq
  thread := hok

/-- 参照の数だけを変える遷移。 -/
theorem Balanced.withRefCount {r : Int → UInt8} (h : Inv cfg s)
    (hr : ∀ p, r p + UInt8.ofNat ((s.threads t).pin p) = s.cache.refCount p + UInt8.ofNat (th.pin p))
    (hhand : th.hand? = (s.threads t).hand?) (hslot : th.slot? = (s.threads t).slot?)
    (htoken : th.token ≤ (s.threads t).token) (hev : th.evicting ≤ (s.threads t).evicting)
    (hok : th.Ok cfg s.cache) : Balanced cfg s t { s.cache with refCount := r } s.freeEpcPages th where
  cache := ⟨h.cache.table, h.cache.ring, h.cache.ringSize, h.cache.store, h.cache.size⟩
  refs := hr
  queue := fun q => by simp only [Thread.hand, hhand]
  queueLen := by simp only [Thread.hands, hhand]
  slots := fun i => by simp only [Thread.hold, hslot]
  slotLen := by simp only [Thread.holds, hslot]
  tokens := Or.inl (by simpa using htoken)
  floor := Or.inl ⟨hev, by simpa using hev⟩
  keep := fun _ _ hq => Or.inl hq
  thread := ⟨hok.links, hok.found, hok.giveBack, hok.inc, hok.pinned, hok.dec⟩

/-- 待ち行列だけを変える遷移。 -/
theorem Balanced.withQueue {r : Ring Int} (h : Inv cfg s) (hpin : ∀ p, th.pin p = (s.threads t).pin p)
    (hw : r.Wf) (hsize : r.size = s.cache.usedPages.size)
    (hcount : ∀ q, r.toList.count q + th.hand q = s.cache.usedPages.toList.count q + (s.threads t).hand q)
    (hlen : r.toList.length + th.hands = s.cache.usedPages.toList.length + (s.threads t).hands)
    (hslot : th.slot? = (s.threads t).slot?) (htoken : th.token ≤ (s.threads t).token)
    (hev : th.evicting ≤ (s.threads t).evicting) (hok : th.Ok cfg s.cache) :
    Balanced cfg s t { s.cache with usedPages := r } s.freeEpcPages th where
  cache := ⟨h.cache.table, hw, hsize.trans h.cache.ringSize, h.cache.store, h.cache.size⟩
  refs := fun p => by simp only [hpin p]
  queue := fun q => by have := hcount q; simp only; omega
  queueLen := by simp only; omega
  slots := fun i => by simp only [Thread.hold, hslot]
  slotLen := by simp only [Thread.holds, hslot]
  tokens := Or.inl (by simpa using htoken)
  floor := Or.inl ⟨hev, by simpa using hev⟩
  keep := fun _ _ hq => Or.inl hq
  thread := ⟨hok.links, hok.found, hok.giveBack, hok.inc, hok.pinned, hok.dec⟩

/-- 空きの並びだけを変える遷移。 -/
theorem Balanced.withFree (h : Inv cfg s) (hpin : ∀ p, th.pin p = (s.threads t).pin p)
    (hhand : th.hand? = (s.threads t).hand?)
    (hcount : ∀ i, f.count i + th.hold i = s.freeEpcPages.count i + (s.threads t).hold i)
    (hlen : f.length + th.holds = s.freeEpcPages.length + (s.threads t).holds)
    (htoken : th.token ≤ (s.threads t).token) (hev : th.evicting ≤ (s.threads t).evicting)
    (hok : th.Ok cfg s.cache) : Balanced cfg s t s.cache f th where
  cache := h.cache
  refs := fun p => by rw [hpin p]
  queue := fun q => by simp only [Thread.hand, hhand]
  queueLen := by simp only [Thread.hands, hhand]
  slots := fun i => by have := hcount i; omega
  slotLen := by omega
  tokens := Or.inl (by omega)
  floor := Or.inl ⟨hev, by omega⟩
  keep := fun _ _ hq => Or.inl hq
  thread := hok

/-! ## 手に何も持たない位置 -/

/-- 手に何も持たず、枠を使うことも追い出すことも決めていない位置。 -/
def Pc.Bare : Pc → Prop
  | .idle | .release _ | .dec _ _ | .inc _ | .get _ | .check _ => True
  | _ => False

theorem Thread.hand?_bare (h : th.pc.Bare) : th.hand? = none := by
  unfold Thread.hand?
  cases hpc : th.pc with
  | select p q => simp [hpc, Pc.Bare] at h
  | enqueue p q => simp [hpc, Pc.Bare] at h
  | _ => rfl

theorem Thread.slot?_bare (h : th.pc.Bare) : th.slot? = none := by
  unfold Thread.slot?
  cases hpc : th.pc with
  | push p i => simp [hpc, Pc.Bare] at h
  | tryAdd p i => simp [hpc, Pc.Bare] at h
  | found p i => simp [hpc, Pc.Bare] at h
  | giveBack p i e => simp [hpc, Pc.Bare] at h
  | _ => rfl

theorem Thread.token_bare (h : th.pc.Bare) : th.token = 0 := by
  unfold Thread.token
  cases hpc : th.pc with
  | push p i => simp [hpc, Pc.Bare] at h
  | pop p => simp [hpc, Pc.Bare] at h
  | tryAdd p i => simp [hpc, Pc.Bare] at h
  | found p i => simp [hpc, Pc.Bare] at h
  | giveBack p i e => simp [hpc, Pc.Bare] at h
  | _ => rfl

theorem Thread.evicting_bare (h : th.pc.Bare) : th.evicting = 0 := by
  unfold Thread.evicting
  cases hpc : th.pc with
  | dequeue p => simp [hpc, Pc.Bare] at h
  | select p q => simp [hpc, Pc.Bare] at h
  | enqueue p q => simp [hpc, Pc.Bare] at h
  | _ => rfl

/-- 手に何も持たないまま、共有の側を変えない遷移。 -/
theorem Balanced.bare (h : Inv cfg s) (hb : (s.threads t).pc.Bare) (hb' : th.pc.Bare)
    (hpin : ∀ p, th.pin p = (s.threads t).pin p) (hok : th.Ok cfg s.cache) :
    Balanced cfg s t s.cache s.freeEpcPages th := by
  refine .local h hpin ?_ ?_ (Or.inl ?_) (Or.inl ?_) hok
  · rw [Thread.hand?_bare hb, Thread.hand?_bare hb']
  · rw [Thread.slot?_bare hb, Thread.slot?_bare hb']
  · rw [Thread.token_bare hb']
    exact Nat.zero_le _
  · rw [Thread.evicting_bare hb']
    exact Nat.zero_le _

/-- 手に何も持たないまま、参照の数だけを変える遷移。 -/
theorem Balanced.bareRefCount {r : Int → UInt8} (h : Inv cfg s) (hb : (s.threads t).pc.Bare) (hb' : th.pc.Bare)
    (hr : ∀ p, r p + UInt8.ofNat ((s.threads t).pin p) = s.cache.refCount p + UInt8.ofNat (th.pin p))
    (hok : th.Ok cfg s.cache) : Balanced cfg s t { s.cache with refCount := r } s.freeEpcPages th := by
  refine .withRefCount h hr ?_ ?_ ?_ ?_ hok
  · rw [Thread.hand?_bare hb, Thread.hand?_bare hb']
  · rw [Thread.slot?_bare hb, Thread.slot?_bare hb']
  · rw [Thread.token_bare hb']
    exact Nat.zero_le _
  · rw [Thread.evicting_bare hb']
    exact Nat.zero_le _

/-! ## 途中のスレッド -/

theorem Thread.pin_pc (th : Thread) (pc : Pc) (hpin : ∀ p, pc.pin p = th.pc.pin p) (p : Int) :
    Thread.pin p ⟨pc, th.links⟩ = th.pin p := by
  simp only [Thread.pin, hpin]

/-- 終わったスレッドの新しい `Aptr`。 -/
theorem Thread.pin_link (th : Thread) (q : Int) (i : Nat) (hpin : ∀ p, th.pc.pin p = if q = p then 1 else 0)
    (p : Int) : Thread.pin p ⟨.idle, (q, i) :: th.links⟩ = th.pin p := by
  rw [Thread.pin, Thread.pin, hpin p]
  simp only [List.map_cons, List.count_cons, beq_iff_eq, Pc.pin]
  omega

theorem Thread.Ok.move {pc : Pc} (h : th.Ok cfg c) (hpin : ∀ p, 0 < pc.pin p → 0 ≤ p ∧ p < cfg.poolPages)
    (hfound : ∀ p i, pc = .found p i → ∃ it, c.get p = some it)
    (hback : ∀ p i e, pc = .giveBack p i e → c.get p = some ⟨p, e⟩)
    (hinc : ∀ p, pc = .inc p → 0 ≤ p ∧ p < cfg.poolPages)
    (hdec : ∀ q p, pc = .dec q p → 0 ≤ p ∧ p < cfg.poolPages) : Thread.Ok cfg c ⟨pc, th.links⟩ := by
  refine ⟨h.links, hfound, hback, hinc, ?_, hdec⟩
  intro p hp
  rcases Nat.eq_zero_or_pos (pc.pin p) with h0 | h0
  · refine h.pinned p ?_
    simp only [Thread.pin, h0, Nat.add_zero] at hp ⊢
    omega
  · exact hpin p h0

theorem Thread.Ok.link (h : th.Ok cfg c) (hp : 0 ≤ p ∧ p < cfg.poolPages)
    (hg : c.get p = some ⟨p, i⟩) : Thread.Ok cfg c ⟨.idle, (p, i) :: th.links⟩ := by
  refine ⟨?_, by simp, by simp, by simp, ?_, by simp⟩
  · intro l hl
    rcases List.mem_cons.mp hl with rfl | hl
    · exact hg
    · exact h.links l hl
  · intro q hq
    by_cases hpq : p = q
    · rw [← hpq]
      exact hp
    · refine h.pinned q ?_
      simp only [Thread.pin, Pc.pin, List.map_cons, List.count_cons, beq_iff_eq, hpq, ↓reduceIte, Nat.add_zero] at hq ⊢
      omega

end Eleos.Threads
