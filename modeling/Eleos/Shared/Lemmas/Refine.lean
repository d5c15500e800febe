import Eleos.Pager.Lemmas.Coherence
import Eleos.Shared.System
import Eleos.Threads.Theorems

/-!
# 中身を省いた状態への対応

一つの遷移が中身に対して行うことを `Effect` に分ける。どの遷移も、枠の中身を省けば `Threads` の遷移であるか、何も変えない。
-/

namespace Eleos.Pager

/-- 枠 `i` に復号した内容を入れた状態。 -/
def State.load (s : State) (p : Int) (i : Nat) (e : Option Seal) : State :=
  { s with epc := s.slotAfter i e, trace := .load p i e (readPage (s.slotAfter i e) (s.epcArr i)) :: s.trace }

/-- ページ `p` の項目を加えた状態。 -/
def State.enter (s : State) (p : Int) (i : Nat) : State :=
  { s with l1 := { s.l1 with
      table := s.l1.table.append Item.pageIndex ⟨p, i⟩
      usedPages := s.l1.usedPages.push p
      pageCacheSize := s.l1.pageCacheSize + 1 } }

end Eleos.Pager

namespace Eleos.Shared

open Eleos.Pager

variable {n : Nat} {cfg : Config} {G : Gcm} {H : Tampering} {m m' : Machine n} {t u : Fin n} {s : State} {th : Thread}
  {p q : Int} {it : Item} {i : Nat}

theorem Machine.world_put (m : Machine n) (t : Fin n) (s : State) (th : Thread) :
    (m.put t s th).world = m.world.put t s.l1 s.freeEpcPages th.erase := by
  simp only [Machine.world, Machine.put, Threads.World.put]
  congr
  funext u
  by_cases hu : u = t
  · subst hu
    simp
  · simp [hu]

@[simp] theorem Machine.world_threads (m : Machine n) (t : Fin n) : m.world.threads t = (m.threads t).erase := rfl

@[simp] theorem Machine.world_cache (m : Machine n) : m.world.cache = m.mem.l1 := rfl

@[simp] theorem Machine.world_free (m : Machine n) : m.world.freeEpcPages = m.mem.freeEpcPages := rfl

@[simp] theorem Thread.erase_links_length (th : Thread) : th.erase.links.length = th.links.length := by
  simp [Thread.erase]

/-! ## 状態の変化 -/

/-- 復号の済んだ枠を手に持たず、新しい `Aptr` に印のないスレッド。 -/
structure Thread.Plain (old th : Thread) : Prop where
  links : ∀ l ∈ th.links, l ∈ old.links ∨ l.marked = false
  pc : ∀ p i, th.pc ≠ .run (.tryAdd p i)

/-- スレッド `t` の遷移が、ページの管理の状態に対して行うこと。 -/
inductive Effect (G : Gcm) (m : Machine n) (t : Fin n) : State → Thread → Prop where
  | quiet {c : PageCache} {f : List Nat} {th : Thread} : c.table = m.mem.l1.table → (m.threads t).Plain th →
      Effect G m t { m.mem with l1 := c, freeEpcPages := f } th
  | evict {p q : Int} {it : Item} {s : State} : (m.threads t).pc = .run (.select p q) → m.mem.l1.refCount q = 0 →
      m.mem.l1.get q = some it → evictLocked G m.mem it = .ok s →
      Effect G m t s ⟨.run (.push p it.epc), (m.threads t).links⟩
  | load {p : Int} {i : Nat} {e : Option Seal} : (m.threads t).pc = .fill p i → m.mem.Unseals G p e →
      Effect G m t (m.mem.load p i e) ⟨.run (.tryAdd p i), (m.threads t).links⟩
  | enter {p : Int} {i : Nat} : (m.threads t).pc = .run (.tryAdd p i) → m.mem.l1.get p = none →
      Effect G m t (m.mem.enter p i) ⟨.run .idle, ⟨p, i, false⟩ :: (m.threads t).links⟩
  | mark {k : Nat} {l : Link} : (m.threads t).links[k]? = some l →
      Effect G m t (m.mem.mark l.epc true) ⟨.run .idle, (m.threads t).links.set k { l with marked := true }⟩
  | read {l : Link} {o : Fin pageSize} : l ∈ (m.threads t).links →
      Effect G m t { m.mem with trace := .read (byteAddr l.page o) (m.mem.epc (l.addr m.mem o)) :: m.mem.trace }
        ⟨.run .idle, (m.threads t).links⟩
  | write {l : Link} {o : Fin pageSize} {v : UInt8} : l ∈ (m.threads t).links → l.marked = true →
      Effect G m t { m.mem with
        epc := Function.update m.mem.epc (l.addr m.mem o) v
        trace := .write (byteAddr l.page o) v :: m.mem.trace } ⟨.run .idle, (m.threads t).links⟩

/-- 遷移の結果。止まるのは、`Threads` の遷移が止まるとき、暗号化か復号が失敗するとき、印を付ける枠の番地がないときである。 -/
inductive Outcome (cfg : Config) (G : Gcm) (m : Machine n) (t : Fin n) : Except Stop (Machine n) → Prop where
  | go {s : State} {th : Thread} : (m.put t s th).world = m.world ∨
      Threads.Step cfg m.world t (.ok (m.put t s th).world) → Effect G m t s th → Outcome cfg G m t (.ok (m.put t s th))
  | stop {e : Stop} : Threads.Step cfg m.world t (.error e) → Outcome cfg G m t (.error e)
  | unsealed {p : Int} {i : Nat} {e : Stop} : (m.threads t).pc = .fill p i → (∀ e, ¬ m.mem.Unseals G p e) →
      Outcome cfg G m t (.error e)
  | unencrypted {p q : Int} {it : Item} {e : Stop} : (m.threads t).pc = .run (.select p q) →
      m.mem.l1.get q = some it → (∀ s, tryEvictPage G m.mem it ≠ .ok s) → Outcome cfg G m t (.error e)
  | unmapped {l : Link} {e : Stop} : l ∈ (m.threads t).links → m.mem.epcArr l.epc = 0 → Outcome cfg G m t (.error e)

/-- 枠の中身に触れない遷移。 -/
theorem Outcome.alter {c : PageCache} {f : List Nat} (hc : c.table = m.mem.l1.table)
    (hw : Threads.Step cfg m.world t (.ok (m.world.put t c f th.erase))) (hth : (m.threads t).Plain th) :
    Outcome cfg G m t (.ok (m.put t { m.mem with l1 := c, freeEpcPages := f } th)) := by
  apply Outcome.go _ (.quiet hc hth)
  right
  rw [Machine.world_put]
  exact hw

theorem Outcome.stay (hw : Threads.Step cfg m.world t (.ok (m.world.put t m.mem.l1 m.mem.freeEpcPages th.erase)))
    (hth : (m.threads t).Plain th) : Outcome cfg G m t (.ok (m.put t m.mem th)) := .alter rfl hw hth

/-- 同じ `Aptr` を持ち続けるスレッド。 -/
theorem Thread.Plain.keep {pc : Pc} (h : ∀ p i, pc ≠ .run (.tryAdd p i)) : th.Plain ⟨pc, th.links⟩ :=
  ⟨fun _ hl => Or.inl hl, h⟩

/-- 新しい `Aptr` を加えるスレッド。 -/
theorem Thread.Plain.link {pc : Pc} (h : ∀ p i, pc ≠ .run (.tryAdd p i)) :
    th.Plain ⟨pc, ⟨p, i, false⟩ :: th.links⟩ := by
  refine ⟨fun l hl => ?_, h⟩
  rcases List.mem_cons.mp hl with rfl | hl
  · exact Or.inr rfl
  · exact Or.inl hl

theorem Thread.Plain.erase {pc : Pc} {k : Nat} (h : ∀ p i, pc ≠ .run (.tryAdd p i)) :
    th.Plain ⟨pc, th.links.eraseIdx k⟩ := ⟨fun _ hl => Or.inl (List.mem_of_mem_eraseIdx hl), h⟩

/-! ## 開始 -/

theorem Machine.world_links (m : Machine n) (t : Fin n) (k : Nat) :
    (m.world.threads t).links[k]? = ((m.threads t).links[k]?).map fun l => (l.page, l.epc) := by
  simp [Thread.erase]

/-- 休んだまま、`Aptr` の印だけが変わるスレッドは、中身を省けば同じである。 -/
theorem Machine.world_put_idle {l : List Link} (hpc : (m.threads t).pc = .run .idle) (hl1 : s.l1 = m.mem.l1)
    (hf : s.freeEpcPages = m.mem.freeEpcPages)
    (hl : (l.map fun l => (l.page, l.epc)) = (m.threads t).links.map fun l => (l.page, l.epc)) :
    (m.put t s ⟨.run .idle, l⟩).world = m.world := by
  rw [Machine.world_put, hl1, hf]
  simp only [Threads.World.put, Machine.world, Threads.World.mk.injEq, true_and]
  funext u
  by_cases hu : u = t
  · subst hu
    simp [Thread.erase, hpc, hl, Pc.erase]
  · simp [hu]

theorem start_outcome {act : Act} (hpc : (m.threads t).pc = .run .idle) (ha : act.Valid cfg (m.threads t)) :
    Outcome cfg G m t (m.start t act) := by
  have hidle : (m.world.threads t).pc = .idle := by simp [Thread.erase, hpc, Pc.erase]
  have hstart {a : Threads.Act} (hv : a.Valid cfg (m.world.threads t)) : Threads.Step cfg m.world t (m.world.start t a) :=
    .start a hidle hv
  cases act with
  | fault k p =>
      cases k with
      | none =>
          have h := hstart (a := .fault none p) (by simpa [Threads.Act.Valid] using ha.2)
          exact .stay h (.keep (by simp))
      | some k =>
          have hk := ha.1 k rfl
          have h := hstart (a := .fault (some k) p) ⟨by simpa using ha.1, ha.2⟩
          simp only [Threads.World.start, Machine.world_links, List.getElem?_eq_getElem hk, Option.map_some] at h
          simp only [Machine.start, List.getElem?_eq_getElem hk]
          exact .stay (by simpa [Thread.erase, Pc.erase, List.eraseIdx_map] using h) (.erase (by simp))
  | reset k =>
      have hk : k < (m.threads t).links.length := ha
      have h := hstart (a := .reset k) (by simpa [Threads.Act.Valid] using hk)
      simp only [Threads.World.start, Machine.world_links, List.getElem?_eq_getElem hk, Option.map_some] at h
      simp only [Machine.start, List.getElem?_eq_getElem hk]
      exact .stay (by simpa [Thread.erase, Pc.erase, List.eraseIdx_map] using h) (.erase (by simp))
  | mark k =>
      have hk : k < (m.threads t).links.length := ha
      simp only [Machine.start, List.getElem?_eq_getElem hk]
      split
      · rename_i h0
        exact .unmapped (List.getElem_mem hk) h0
      · apply Outcome.go (Or.inl _) (.mark (List.getElem?_eq_getElem hk))
        apply Machine.world_put_idle hpc rfl rfl
        rw [List.map_set]
        apply List.ext_getElem?
        intro j
        rw [List.getElem?_set]
        split
        · rename_i hj
          subst hj
          simp [hk]
        · rfl
  | read k o =>
      have hk : k < (m.threads t).links.length := ha
      simp only [Machine.start, List.getElem?_eq_getElem hk]
      exact .go (Or.inl (Machine.world_put_idle hpc rfl rfl rfl)) (.read (List.getElem_mem hk))
  | write k o v =>
      obtain ⟨l, hl, hm⟩ := ha
      simp only [Machine.start, hl]
      exact .go (Or.inl (Machine.world_put_idle hpc rfl rfl rfl)) (.write (List.mem_of_getElem? hl) hm)

/-! ## 途中のスレッド -/

theorem evictLocked_ok_iff {s s' : State} : evictLocked G s it = .ok s' ↔
    ∃ t, tryEvictPage G s it = .ok t ∧ { t with freeEpcPages := s.freeEpcPages } = s' := by
  simp only [evictLocked, bind_ok_iff, Except.ok.injEq]

/-- 外した項目の表は、`PageCache::remove` の結果である。 -/
theorem evictLocked_l1 {s s' : State} (h : evictLocked G s it = .ok s') :
    s.l1.remove it.pageIndex = .ok s'.l1 ∧ s'.freeEpcPages = s.freeEpcPages := by
  obtain ⟨t, ht, rfl⟩ := evictLocked_ok_iff.mp h
  obtain ⟨⟨jt, hj⟩, ⟨_, rfl⟩ | ⟨_, e, _, rfl⟩⟩ := tryEvictPage_ok_iff.mp ht
  · simp [PageCache.remove, hj, State.drop]
  · simp [PageCache.remove, hj, State.drop, State.writeBack]

theorem PageCache.setRefCount_table {c c' : PageCache} {f : UInt8 → UInt8} (h : c.setRefCount p f = .ok c') :
    c'.table = c.table := by
  obtain ⟨_, rfl⟩ := PageCache.setRefCount_ok_iff.mp h
  rfl

/-- 表に触れない `PageCache` の操作で終わる遷移。 -/
theorem Outcome.ofCache {x : Except Stop PageCache} {pc : Threads.Pc} (hpc : ∀ p i, pc ≠ .tryAdd p i)
    (hx : ∀ c, x = .ok c → c.table = m.mem.l1.table)
    (hadv : Threads.Step cfg m.world t (do
      let c ← x
      .ok (m.world.put t c m.mem.freeEpcPages ⟨pc, (m.threads t).erase.links⟩))) :
    Outcome cfg G m t (do
      let c ← x
      .ok (m.put t { m.mem with l1 := c } ⟨.run pc, (m.threads t).links⟩)) := by
  cases hc : x with
  | error e =>
      rw [hc] at hadv
      exact .stop hadv
  | ok c =>
      rw [hc] at hadv
      exact .alter (hx c hc) hadv (.keep (by simpa using hpc))

theorem advance_world (cfg : Config) {pc : Threads.Pc} (hpc : (m.threads t).pc = .run pc) :
    (m.world.threads t).pc = pc ∧ Threads.Step cfg m.world t (m.world.advance cfg t) :=
  ⟨by rw [Machine.world_threads, Thread.erase, hpc, Pc.erase], .advance⟩

theorem outcome_refCount :
    (∀ old, (m.threads t).pc = .run (.release old) → Outcome cfg G m t (m.advance cfg G t)) ∧
    (∀ old p, (m.threads t).pc = .run (.dec old p) → Outcome cfg G m t (m.advance cfg G t)) ∧
    ∀ p, (m.threads t).pc = .run (.inc p) → Outcome cfg G m t (m.advance cfg G t) := by
  refine ⟨fun old hpc => ?_, fun old p hpc => ?_, fun p hpc => ?_⟩
  all_goals
    obtain ⟨hpc', hadv⟩ := advance_world cfg hpc
    simp only [Threads.World.advance, hpc'] at hadv
    simp only [Machine.advance, hpc]
    exact .ofCache (by simp) (fun c => PageCache.setRefCount_table) hadv

theorem outcome_get (hpc : (m.threads t).pc = .run (.get p)) : Outcome cfg G m t (m.advance cfg G t) := by
  obtain ⟨hpc', hadv⟩ := advance_world cfg hpc
  simp only [Threads.World.advance, hpc', Machine.world_cache] at hadv
  simp only [Machine.advance, hpc]
  cases hg : m.mem.l1.get p with
  | none =>
      simp only [hg] at hadv
      exact .stay hadv (.keep (by simp))
  | some it =>
      simp only [hg] at hadv
      exact .stay hadv (.link (by simp))

theorem outcome_check (hpc : (m.threads t).pc = .run (.check p)) : Outcome cfg G m t (m.advance cfg G t) := by
  obtain ⟨hpc', hadv⟩ := advance_world cfg hpc
  simp only [Threads.World.advance, hpc'] at hadv
  simp only [Machine.advance, hpc]
  split
  · rename_i hfull
    rw [if_pos (by exact hfull)] at hadv
    exact .stay hadv (.keep (by simp))
  · rename_i hroom
    rw [if_neg (by exact hroom)] at hadv
    exact .stay hadv (.keep (by simp))

theorem outcome_queue :
    (∀ p, (m.threads t).pc = .run (.dequeue p) → Outcome cfg G m t (m.advance cfg G t)) ∧
    ∀ p q, (m.threads t).pc = .run (.enqueue p q) → Outcome cfg G m t (m.advance cfg G t) := by
  refine ⟨fun p hpc => ?_, fun p q hpc => ?_⟩
  · obtain ⟨hpc', hadv⟩ := advance_world cfg hpc
    simp only [Threads.World.advance, hpc', Machine.world_cache] at hadv
    simp only [Machine.advance, hpc]
    cases hd : UsedPagesQueue.dequeue m.mem.l1.usedPages with
    | error e =>
        rw [hd] at hadv
        exact .stop hadv
    | ok r =>
        rw [hd] at hadv
        exact .alter rfl hadv (.keep (by simp))
  · obtain ⟨hpc', hadv⟩ := advance_world cfg hpc
    simp only [Threads.World.advance, hpc', Machine.world_cache] at hadv
    simp only [Machine.advance, hpc]
    cases he : UsedPagesQueue.enqueue m.mem.l1.usedPages q with
    | error e =>
        rw [he] at hadv
        exact .stop hadv
    | ok r =>
        rw [he] at hadv
        exact .alter rfl hadv (.keep (by simp))

theorem outcome_select (hpc : (m.threads t).pc = .run (.select p q)) : Outcome cfg G m t (m.advance cfg G t) := by
  obtain ⟨hpc', hadv⟩ := advance_world cfg hpc
  simp only [Threads.World.advance, hpc'] at hadv
  simp only [Machine.advance, hpc]
  split
  · rename_i hpos
    rw [if_pos (by exact hpos)] at hadv
    exact .stay hadv (.keep (by simp))
  · rename_i hz
    rw [if_neg (by exact hz)] at hadv
    cases hg : m.mem.l1.get q with
    | none =>
        simp only [Machine.world_cache, hg] at hadv
        exact .stop hadv
    | some it =>
        simp only [Machine.world_cache, hg] at hadv ⊢
        cases he : evictLocked G m.mem it with
        | error e =>
            apply Outcome.unencrypted hpc hg
            intro s hs
            cases he.symm.trans (evictLocked_ok_iff.mpr ⟨s, hs, rfl⟩)
        | ok s =>
            obtain ⟨hrem, hfree⟩ := evictLocked_l1 he
            rw [PageCache.pageIndex_of_get hg] at hrem
            rw [hrem] at hadv
            refine .go (Or.inr ?_) (.evict hpc (by simpa using hz) hg he)
            rw [Machine.world_put, hfree]
            exact hadv

theorem outcome_free :
    (∀ p i, (m.threads t).pc = .run (.push p i) → Outcome cfg G m t (m.advance cfg G t)) ∧
    (∀ p, (m.threads t).pc = .run (.pop p) → Outcome cfg G m t (m.advance cfg G t)) ∧
    ∀ p i e, (m.threads t).pc = .run (.giveBack p i e) → Outcome cfg G m t (m.advance cfg G t) := by
  refine ⟨fun p i hpc => ?_, fun p hpc => ?_, fun p i e hpc => ?_⟩
  · obtain ⟨hpc', hadv⟩ := advance_world cfg hpc
    simp only [Threads.World.advance, hpc'] at hadv
    simp only [Machine.advance, hpc]
    exact .alter rfl hadv (.keep (by simp))
  · obtain ⟨hpc', hadv⟩ := advance_world cfg hpc
    simp only [Threads.World.advance, hpc', Machine.world_free] at hadv
    simp only [Machine.advance, hpc, popFree]
    cases hf : m.mem.freeEpcPages with
    | nil =>
        rw [hf] at hadv
        exact .stop hadv
    | cons i rest =>
        rw [hf] at hadv
        exact .alter rfl hadv (.keep (by simp))
  · obtain ⟨hpc', hadv⟩ := advance_world cfg hpc
    simp only [Threads.World.advance, hpc'] at hadv
    simp only [Machine.advance, hpc]
    exact .alter rfl hadv (.link (by simp))

theorem outcome_fill (hpc : (m.threads t).pc = .fill p i) : Outcome cfg G m t (m.advance cfg G t) := by
  simp only [Machine.advance, hpc]
  cases hf : fillSlot G m.mem p i with
  | error e =>
      apply Outcome.unsealed hpc
      intro e hu
      cases hf.symm.trans (fillSlot_ok_iff.mpr ⟨hu, rfl⟩)
  | ok r =>
      obtain ⟨s, e⟩ := r
      obtain ⟨hu, rfl⟩ := fillSlot_ok_iff.mp hf
      refine .go (Or.inl ?_) (.load hpc hu)
      rw [Machine.world_put]
      simp only [Threads.World.put, Machine.world, Threads.World.mk.injEq, true_and]
      funext u
      by_cases hu : u = t
      · subst hu
        simp [Thread.erase, hpc, Pc.erase]
      · simp [hu]

theorem outcome_tryAdd (hpc : (m.threads t).pc = .run (.tryAdd p i)) : Outcome cfg G m t (m.advance cfg G t) := by
  obtain ⟨hpc', hadv⟩ := advance_world cfg hpc
  simp only [Threads.World.advance, hpc', Machine.world_cache] at hadv
  simp only [Machine.advance, hpc]
  cases ha : m.mem.l1.tryAdd p i with
  | error e =>
      rw [ha] at hadv
      exact .stop hadv
  | ok r =>
      obtain ⟨b, c⟩ := r
      rw [ha] at hadv
      cases hg : m.mem.l1.get p with
      | none =>
          obtain ⟨rfl, _, rfl⟩ := PageCache.tryAdd_of_none hg ha
          refine .go (Or.inr ?_) (.enter hpc hg)
          rw [Machine.world_put]
          exact hadv
      | some it =>
          simp only [PageCache.tryAdd, hg, Except.ok.injEq, Prod.mk.injEq] at ha
          obtain ⟨rfl, rfl⟩ := ha
          exact .stay hadv (.keep (by simp))

theorem outcome_found (hpc : (m.threads t).pc = .run (.found p i)) : Outcome cfg G m t (m.advance cfg G t) := by
  obtain ⟨hpc', hadv⟩ := advance_world cfg hpc
  simp only [Threads.World.advance, hpc', Machine.world_cache] at hadv
  simp only [Machine.advance, hpc]
  cases hg : m.mem.l1.get p with
  | none =>
      simp only [hg] at hadv
      exact .stop hadv
  | some it =>
      simp only [hg] at hadv
      exact .stay hadv (.keep (by simp))

theorem advance_outcome (cfg : Config) (G : Gcm) (m : Machine n) (t : Fin n) :
    Outcome cfg G m t (m.advance cfg G t) := by
  cases hpc : (m.threads t).pc with
  | fill p i => exact outcome_fill hpc
  | run pc =>
      cases pc with
      | idle =>
          simp only [Machine.advance, hpc]
          exact .go (Or.inl (Machine.world_put_idle hpc rfl rfl rfl)) (.quiet rfl (.keep (by simp)))
      | release old => exact outcome_refCount.1 old hpc
      | dec old p => exact outcome_refCount.2.1 old p hpc
      | inc p => exact outcome_refCount.2.2 p hpc
      | get p => exact outcome_get hpc
      | check p => exact outcome_check hpc
      | dequeue p => exact outcome_queue.1 p hpc
      | select p q => exact outcome_select hpc
      | enqueue p q => exact outcome_queue.2 p q hpc
      | push p i => exact outcome_free.1 p i hpc
      | pop p => exact outcome_free.2.1 p hpc
      | tryAdd p i => exact outcome_tryAdd hpc
      | found p i => exact outcome_found hpc
      | giveBack p i e => exact outcome_free.2.2 p i e hpc

/-- ホストの書き換えのほかの遷移の結果。 -/
theorem Step.outcome {r : Except Stop (Machine n)} (h : Step cfg G H m r) :
    (∃ t, Outcome cfg G m t r) ∨
      ∃ pool, H m.mem.pool pool ∧ r = .ok { m with mem := { m.mem with pool := pool } } := by
  cases h with
  | start t act hpc ha => exact Or.inl ⟨t, start_outcome hpc ha⟩
  | advance t => exact Or.inl ⟨t, advance_outcome cfg G m t⟩
  | host pool hp => exact Or.inr ⟨pool, hp, rfl⟩

end Eleos.Shared
