import Eleos.Pager.Lemmas.Freshness
import Eleos.Shared.Lemmas.Cached

/-!
# 枠の中身の不変条件

枠の勘定は `Threads.Inv` による。中身の不変条件 `Content` を、`Effect` の各場合が保つ。ほかのスレッドが手に持つ枠とページは、
参照の数と枠の勘定によって、どの遷移からも守られる。
-/

namespace Eleos.Pager

variable {G : Gcm} {s : State} {p : Int} {i : Nat} {e : Option Seal} {l : List Event}

/-- 復号は、控えのあるページの項目のノンスとタグによる。 -/
theorem State.Logged.load (h : s.Logged G) (hu : s.Unseals G p e) : (s.load p i e).Logged G := by
  refine ⟨h.entry, h.nonces, ?_⟩
  cases hu with
  | absent hn =>
      have hentry := h.entry p
      rw [hn] at hentry
      exact ⟨by simpa using hentry.symm, h.recorded⟩
  | @present y plain hy hd =>
      obtain ⟨e₀, he, hn, ht⟩ := h.lastSeal_of_entry hy
      exact ⟨readPage_writePage_self, hd, ⟨e₀, he, hn, ht⟩, h.recorded⟩

theorem Coherent.paging {ev : Event} (h : Coherent l) (hev : ev.Paging) : Coherent (ev :: l) := by
  apply h.cons
  rintro x v w rfl
  exact hev.elim

end Eleos.Pager

namespace Eleos.Shared

open Eleos.Pager

variable {n : Nat} {cfg : Config} {G : Gcm} {m : Machine n} {t u : Fin n} {s : State} {th : Thread} {p q : Int}
  {it : Item} {i : Nat} {l : Link}

/-- 中身の不変条件。 -/
structure Content (cfg : Config) (G : Gcm) (m : Machine n) : Prop where
  slots : m.mem.Slots cfg
  logged : m.mem.Logged G
  dirty : ∀ i, tagBit (m.mem.epcArr i) = true → ∃ p, m.mem.l1.get p = some ⟨p, i⟩
  holds : (m.mem.cached cfg).Holds (written m.mem.trace)
  ready : ∀ t p i, (m.threads t).pc = .run (.tryAdd p i) → (m.mem.cached cfg).Ready p i
  marked : ∀ t, ∀ l ∈ (m.threads t).links, l.marked = true → tagBit (m.mem.epcArr l.epc) = true
  coherent : Coherent m.mem.trace

/-- 状態 `s` に進む復号の内容は、同じページの最後の暗号化の内容である。 -/
def Trusted (G : Gcm) (m : Machine n) (s : State) : Prop :=
  ∀ p i e, m.mem.Unseals G p e → s = m.mem.load p i e → e.map Seal.plain = (lastSeal m.mem.trace p).map Seal.plain

theorem Machine.put_threads_self : (m.put t s th).threads t = th := Function.update_self ..

theorem Machine.put_threads_ne (h : u ≠ t) : (m.put t s th).threads u = m.threads u := Function.update_of_ne h ..

/-! ## 枠の勘定から分かること -/

theorem Thread.erase_slot? (h : th.pc = .fill p i ∨ th.pc = .run (.tryAdd p i)) : th.erase.slot? = some i := by
  rcases h with h | h
  · simp [Thread.erase, Threads.Thread.slot?, h, Pc.erase]
  · simp [Thread.erase, Threads.Thread.slot?, h, Pc.erase]

/-- 手に持つ枠には、どのページも置かれていない。 -/
theorem vacant_of_hand (hw : Threads.Inv cfg m.world) (h : (m.world.threads t).slot? = some i) :
    (m.mem.cached cfg).Vacant i := by
  intro q hq
  obtain ⟨it, hit, he⟩ := Option.map_eq_some_iff.mp hq
  exact hw.slot_vacant h hit he

/-- つながっている `Aptr` のページは、その枠に置かれていて、参照がある。 -/
theorem link_get (hw : Threads.Inv cfg m.world) (hl : l ∈ (m.threads t).links) :
    m.mem.l1.get l.page = some ⟨l.page, l.epc⟩ :=
  (hw.threads t).links (l.page, l.epc) (List.mem_map.mpr ⟨l, hl, rfl⟩)

theorem link_pinned (hw : Threads.Inv cfg m.world) (hl : l ∈ (m.threads t).links) : m.mem.l1.refCount l.page ≠ 0 := by
  apply hw.refCount_ne_zero (t := t)
  have hmem : l.page ∈ (m.world.threads t).links.map Prod.fst :=
    List.mem_map.mpr ⟨(l.page, l.epc), List.mem_map.mpr ⟨l, hl, rfl⟩, rfl⟩
  have := List.count_pos_iff.mpr hmem
  unfold Threads.Thread.pin
  omega

/-- 加えようとしているページには参照がある。 -/
theorem tryAdd_pinned (hw : Threads.Inv cfg m.world) (h : (m.threads t).pc = .run (.tryAdd p i)) :
    m.mem.l1.refCount p ≠ 0 := by
  apply hw.refCount_ne_zero (t := t)
  simp [Threads.Thread.pin, Threads.Pc.pin, Thread.erase, h, Pc.erase]

/-- 手に持つ枠に印はない。 -/
theorem Content.hand_clean (h : Content cfg G m) (hw : Threads.Inv cfg m.world)
    (ht : (m.world.threads t).slot? = some i) : m.mem.epcArr i = cfg.slot i := by
  rw [← h.slots i, clearTag_of_tagBit_false]
  cases hd : tagBit (m.mem.epcArr i) with
  | false => rfl
  | true =>
      obtain ⟨p, hp⟩ := h.dirty i hd
      exact absurd rfl (hw.slot_vacant ht hp)

/-! ## 遷移の種類ごとの保存 -/

/-- 次の状態の不変条件を、共有の側、動いたスレッド、ほかのスレッドに分けて示す。 -/
theorem Content.put (hslots : s.Slots cfg) (hlogged : s.Logged G)
    (hdirty : ∀ i, tagBit (s.epcArr i) = true → ∃ p, s.l1.get p = some ⟨p, i⟩)
    (hholds : (s.cached cfg).Holds (written s.trace)) (hcoherent : Coherent s.trace)
    (hready : ∀ u p i, u ≠ t → (m.threads u).pc = .run (.tryAdd p i) → (s.cached cfg).Ready p i)
    (hself : ∀ p i, th.pc = .run (.tryAdd p i) → (s.cached cfg).Ready p i)
    (hmarked : ∀ u, ∀ l ∈ (m.threads u).links, l.marked = true → tagBit (s.epcArr l.epc) = true)
    (hlinks : ∀ l ∈ th.links, l ∈ (m.threads t).links ∨ (l.marked = true → tagBit (s.epcArr l.epc) = true)) :
    Content cfg G (m.put t s th) := by
  refine ⟨hslots, hlogged, hdirty, hholds, ?_, ?_, hcoherent⟩
  · intro u p i hpc
    by_cases hu : u = t
    · subst hu
      rw [Machine.put_threads_self] at hpc
      exact hself p i hpc
    · rw [Machine.put_threads_ne hu] at hpc
      exact hready u p i hu hpc
  · intro u l hl
    by_cases hu : u = t
    · subst hu
      rw [Machine.put_threads_self] at hl
      rcases hlinks l hl with hold | hnew
      · exact hmarked u l hold
      · exact hnew
    · rw [Machine.put_threads_ne hu] at hl
      exact hmarked u l hl

theorem Content.quiet {c : PageCache} {f : List Nat} (h : Content cfg G m) (hc : c.table = m.mem.l1.table)
    (hth : (m.threads t).Plain th) : Content cfg G (m.put t { m.mem with l1 := c, freeEpcPages := f } th) := by
  have hget (p : Int) : c.get p = m.mem.l1.get p := by rw [PageCache.get, PageCache.get, hc]
  have hcached : State.cached cfg { m.mem with l1 := c, freeEpcPages := f } = m.mem.cached cfg :=
    Writeback.ext (funext fun p => congrArg (Option.map Item.epc) (hget p)) rfl rfl rfl
  refine .put h.slots ⟨h.logged.entry, h.logged.nonces, h.logged.recorded⟩ ?_ ?_ h.coherent ?_ ?_ h.marked ?_
  · intro i hi
    obtain ⟨p, hp⟩ := h.dirty i hi
    exact ⟨p, (hget p).trans hp⟩
  · rw [hcached]
    exact h.holds
  · rw [hcached]
    intro u p i _ hpc
    exact h.ready u p i hpc
  · intro p i hpc
    exact absurd hpc (hth.pc p i)
  · intro l hl
    rcases hth.links l hl with hold | hnew
    · exact Or.inl hold
    · exact Or.inr fun hm => by simp [hnew] at hm

/-- つながっている `Aptr` の枠は、参照のないページの枠ではない。 -/
theorem Content.link_apart (h : Content cfg G m) (hw : Threads.Inv cfg m.world) (hz : m.mem.l1.refCount q = 0)
    (hit : m.mem.l1.get q = some it) (hl : l ∈ (m.threads u).links) : l.epc ≠ it.epc := by
  intro heq
  have hlq := h.holds.inj (State.cached_get (link_get hw hl)) (by rw [State.cached_get hit, ← heq])
  exact link_pinned hw hl (hlq ▸ hz)

/-- ほかの枠にある項目は、追い出しのあとも残る。 -/
theorem get_drop_of_ne (e : Option Seal) (hit : s.l1.get q = some it) (hne : i ≠ it.epc)
    (hp : s.l1.get p = some ⟨p, i⟩) : (s.drop it e).l1.get p = some ⟨p, i⟩ := by
  have hk := PageCache.pageIndex_of_get hit
  have hpq : p ≠ it.pageIndex := by
    rintro rfl
    rw [hk, hit] at hp
    cases hp
    exact hne rfl
  rw [← hp]
  exact Table.get_remove_ne hpq

/-- 変更のない項目の追い出し。 -/
theorem Content.drop (h : Content cfg G m) (hw : Threads.Inv cfg m.world) (hit : m.mem.l1.get q = some it)
    (hclean : tagBit (m.mem.epcArr it.epc) = false) (hpc : ∀ p i, th.pc ≠ .run (.tryAdd p i))
    (hlinks : th.links = (m.threads t).links) :
    Content cfg G (m.put t { m.mem.drop it none with freeEpcPages := m.mem.freeEpcPages } th) := by
  have hcached : State.cached cfg { m.mem.drop it none with freeEpcPages := m.mem.freeEpcPages } =
      (m.mem.cached cfg).drop q := State.cached_drop hw.cache.table hit
  have hq : (m.mem.cached cfg).Clean q := by
    intro i hi
    cases (State.cached_get hit).symm.trans hi
    exact hclean
  have hlog : State.Logged G (m.mem.drop it none) := h.logged.drop_clean
  refine .put h.slots ⟨hlog.entry, hlog.nonces, hlog.recorded⟩ ?_ ?_ (h.coherent.paging trivial) ?_ ?_ h.marked ?_
  · intro i hi
    obtain ⟨p, hp⟩ := h.dirty i hi
    refine ⟨p, get_drop_of_ne none hit ?_ hp⟩
    rintro rfl
    cases hclean.symm.trans hi
  · rw [hcached]
    exact h.holds.drop hq
  · intro u p i _ hu
    exact h.ready u p i hu
  · intro p i hp
    exact absurd hp (hpc p i)
  · intro l hl
    exact Or.inl (hlinks ▸ hl)

/-- 変更のある項目の追い出し。参照のあるページとその枠には触れない。 -/
theorem Content.flush {e : Seal} (h : Content cfg G m) (hw : Threads.Inv cfg m.world)
    (hz : m.mem.l1.refCount q = 0) (hit : m.mem.l1.get q = some it) (hseal : m.mem.Seals G it e)
    (hpc : ∀ p i, th.pc ≠ .run (.tryAdd p i)) (hlinks : th.links = (m.threads t).links) :
    Content cfg G (m.put t { (m.mem.writeBack it e).drop it (some e) with freeEpcPages := m.mem.freeEpcPages } th) := by
  have hcached : State.cached cfg
      { (m.mem.writeBack it e).drop it (some e) with freeEpcPages := m.mem.freeEpcPages } =
      ((m.mem.cached cfg).flush q it.epc).drop q := State.cached_flush hw.cache.table h.slots hit hseal
  have hlog := h.logged.drop_dirty hseal
  have htags {i : Nat} (hne : i ≠ it.epc) : (m.mem.writeBack it e).epcArr i = m.mem.epcArr i :=
    Function.update_of_ne hne ..
  have hhome : (m.mem.cached cfg).home q = some it.epc := State.cached_get hit
  refine .put ?_ ⟨hlog.entry, hlog.nonces, hlog.recorded⟩ ?_ ?_ (h.coherent.paging trivial) ?_ ?_ ?_ ?_
  · exact fun j => (clearTag_update (clearTag_clearTag _) j).trans (h.slots j)
  · intro i hi
    have hne : i ≠ it.epc := by
      rintro rfl
      simp [State.drop, State.writeBack] at hi
    obtain ⟨p, hp⟩ := h.dirty i (by simpa [State.drop, htags hne] using hi)
    exact ⟨p, get_drop_of_ne (some e) hit hne hp⟩
  · rw [hcached]
    apply (h.holds.flush hhome).drop
    intro i hi
    cases hhome.symm.trans hi
    exact Function.update_self ..
  · rw [hcached]
    intro u p i _ hu
    have hpq : p ≠ q := by
      rintro rfl
      exact tryAdd_pinned hw hu hz
    exact (h.ready u p i hu).flush hpq
  · intro p i hp
    exact absurd hp (hpc p i)
  · intro u l hl hm
    rw [← h.marked u l hl hm]
    exact congrArg tagBit (htags (h.link_apart hw hz hit hl))
  · intro l hl
    exact Or.inl (hlinks ▸ hl)

/-- 空きの枠への復号。 -/
theorem Content.load {e : Option Seal} (h : Content cfg G m) (hw : Threads.Inv cfg m.world)
    (hpc : (m.threads t).pc = .fill p i) (hu : m.mem.Unseals G p e)
    (htrust : e.map Seal.plain = (lastSeal m.mem.trace p).map Seal.plain) :
    Content cfg G (m.put t (m.mem.load p i e) ⟨.run (.tryAdd p i), (m.threads t).links⟩) := by
  have hslot : (m.world.threads t).slot? = some i := Thread.erase_slot? (Or.inl hpc)
  have hcached := State.cached_load (p := p) (e := e) (h.hand_clean hw hslot)
  refine .put h.slots (h.logged.load hu) h.dirty ?_ (h.coherent.paging trivial) ?_ ?_ h.marked fun l hl => Or.inl hl
  · rw [hcached]
    exact h.holds.fill (vacant_of_hand hw hslot)
  · rw [hcached]
    intro u q j hne hq
    have hj : (m.world.threads u).slot? = some j := Thread.erase_slot? (Or.inr hq)
    exact (h.ready u q j hq).fill_ne (hw.slot_apart hne hj hslot)
  · rw [hcached]
    rintro q j ⟨⟩
    apply Writeback.Ready.fill_self
    intro c hc
    rw [State.cached_vault, ← htrust] at hc
    cases e with
    | none => cases hc
    | some e => exact Option.some.inj hc

/-- 復号の済んだ枠の、表への追加。 -/
theorem Content.enter (h : Content cfg G m) (hw : Threads.Inv cfg m.world)
    (hpc : (m.threads t).pc = .run (.tryAdd p i)) (hg : m.mem.l1.get p = none) :
    Content cfg G (m.put t (m.mem.enter p i) ⟨.run .idle, ⟨p, i, false⟩ :: (m.threads t).links⟩) := by
  have hslot : (m.world.threads t).slot? = some i := Thread.erase_slot? (Or.inr hpc)
  have hcached : (m.mem.enter p i).cached cfg = (m.mem.cached cfg).place p i := State.cached_enter hg
  refine .put h.slots ⟨h.logged.entry, h.logged.nonces, h.logged.recorded⟩ ?_ ?_ h.coherent ?_ (by simp) h.marked ?_
  · intro j hj
    obtain ⟨q, hq⟩ := h.dirty j hj
    have hqp : q ≠ p := by
      rintro rfl
      cases hg.symm.trans hq
    exact ⟨q, (Table.get_append_ne hqp).trans hq⟩
  · rw [hcached]
    have hhome : (m.mem.cached cfg).home p = none := by simp [hg]
    exact h.holds.place hhome (vacant_of_hand hw hslot) (h.ready t p i hpc)
  · intro u q j _ hq
    exact h.ready u q j hq
  · intro l hl
    rcases List.mem_cons.mp hl with rfl | hl
    · exact Or.inr (by simp)
    · exact Or.inl hl

theorem Content.mark {k : Nat} (h : Content cfg G m) (hw : Threads.Inv cfg m.world)
    (hl : (m.threads t).links[k]? = some l) : Content cfg G
      (m.put t (m.mem.mark l.epc true) ⟨.run .idle, (m.threads t).links.set k { l with marked := true }⟩) := by
  have hget := link_get hw (List.mem_of_getElem? hl)
  have htag {i : Nat} (hi : i ≠ l.epc) : (m.mem.mark l.epc true).epcArr i = m.mem.epcArr i :=
    Function.update_of_ne hi ..
  have hset : tagBit ((m.mem.mark l.epc true).epcArr l.epc) = true := by simp [State.mark]
  refine .put h.slots.mark ⟨h.logged.entry, h.logged.nonces, h.logged.recorded⟩ ?_ ?_ h.coherent ?_ (by simp) ?_ ?_
  · intro i hi
    by_cases hne : i = l.epc
    · exact ⟨l.page, by rw [hne, State.mark_l1, hget]⟩
    · rw [htag hne] at hi
      exact h.dirty i hi
  · rw [State.cached_mark]
    exact h.holds.mark
  · intro u q j _ hq
    exact h.ready u q j hq
  · intro u l' hl' hm
    by_cases hne : l'.epc = l.epc
    · rw [hne]
      exact hset
    · rw [htag hne]
      exact h.marked u l' hl' hm
  · intro l' hl'
    rcases List.mem_or_eq_of_mem_set hl' with hold | rfl
    · exact Or.inl hold
    · exact Or.inr fun _ => hset

/-! ## 読み書き -/

theorem Content.addr (h : Content cfg G m) (l : Link) (o : Fin pageSize) : l.addr m.mem o = cfg.slot l.epc + o := by
  rw [Link.addr, h.slots]

theorem Content.read {o : Fin pageSize} (h : Content cfg G m) (hw : Threads.Inv cfg m.world)
    (hl : l ∈ (m.threads t).links) : Content cfg G (m.put t
      { m.mem with trace := .read (byteAddr l.page o) (m.mem.epc (l.addr m.mem o)) :: m.mem.trace }
      ⟨.run .idle, (m.threads t).links⟩) := by
  refine .put h.slots ⟨h.logged.entry, h.logged.nonces, h.logged.recorded⟩ h.dirty h.holds (h.coherent.cons ?_)
    (fun u p i _ => h.ready u p i) (by simp) h.marked fun l hl => Or.inl hl
  rintro x v w ⟨⟩ hlast
  rw [h.addr]
  exact h.holds.resident (State.cached_get (link_get hw hl)) hlast

theorem Content.write {o : Fin pageSize} {v : UInt8} (h : Content cfg G m) (hw : Threads.Inv cfg m.world)
    (hl : l ∈ (m.threads t).links) (hm : l.marked = true) : Content cfg G (m.put t
      { m.mem with
        epc := Function.update m.mem.epc (l.addr m.mem o) v
        trace := .write (byteAddr l.page o) v :: m.mem.trace } ⟨.run .idle, (m.threads t).links⟩) := by
  have hget := link_get hw hl
  rw [h.addr]
  have hcached : State.cached cfg { m.mem with
      epc := Function.update m.mem.epc (cfg.slot l.epc + o) v
      trace := .write (byteAddr l.page o) v :: m.mem.trace } = (m.mem.cached cfg).store l.epc o v := State.cached_write
  refine .put h.slots ⟨h.logged.entry, h.logged.nonces, h.logged.recorded⟩ h.dirty ?_
    (h.coherent.cons (by simp)) ?_ (by simp) h.marked fun l hl => Or.inl hl
  · rw [hcached, written_write]
    exact h.holds.store (State.cached_get hget) (h.marked t l hl hm)
  · rw [hcached]
    intro u p i _ hu
    have hslot : (m.world.threads u).slot? = some i := Thread.erase_slot? (Or.inr hu)
    exact (h.ready u p i hu).fill_ne (hw.slot_vacant hslot hget).symm

/-! ## 初めの状態と遷移 -/

theorem Effect.content (hw : Threads.Inv cfg m.world) (h : Content cfg G m) (ht : Trusted G m s)
    (he : Effect G m t s th) : Content cfg G (m.put t s th) := by
  cases he with
  | quiet hc hth => exact h.quiet hc hth
  | evict hpc hz hit hev =>
      obtain ⟨t', ht', rfl⟩ := evictLocked_ok_iff.mp hev
      obtain ⟨_, ⟨hclean, rfl⟩ | ⟨_, e, hseal, rfl⟩⟩ := tryEvictPage_ok_iff.mp ht'
      · exact h.drop hw hit hclean (by simp) rfl
      · exact h.flush hw hz hit hseal (by simp) rfl
  | load hpc hu => exact h.load hw hpc hu (ht _ _ _ hu rfl)
  | enter hpc hg => exact h.enter hw hpc hg
  | mark hl => exact h.mark hw hl
  | read hl => exact h.read hw hl
  | write hl hm => exact h.write hw hl hm

theorem Machine.init_content (cfg : Config) (G : Gcm) (epc pool : Nat → UInt8) (key : Key) (rand : Nat → Nonce) :
    Content cfg G (Machine.init cfg epc pool key rand : Machine n) := by
  have hget (p : Int) : (State.init cfg epc pool key rand).l1.get p = none := rfl
  refine ⟨?_, State.init_logged cfg epc pool key rand, ?_, ⟨?_, ?_, ?_⟩, by simp [Machine.init], by simp [Machine.init], ?_⟩
  · exact (State.init_wf cfg epc pool key rand).slots
  · intro i hi
    have hslot : clearTag (cfg.slot i) = cfg.slot i := (State.init_wf cfg epc pool key rand).slots i
    have hclean := tagBit_clearTag (cfg.slot i)
    rw [hslot] at hclean
    cases hclean.symm.trans hi
  · simp [Machine.init, hget]
  · simp [Machine.init, hget]
  · simp [Machine.init, State.init, written, lastWrite]
  · intro l₁ a v l₂ h
    simp [Machine.init, State.init] at h

/-- ホストはプールにしか触れない。 -/
theorem Content.host {pool : Nat → UInt8} (h : Content cfg G m) :
    Content cfg G { m with mem := { m.mem with pool := pool } } :=
  ⟨h.slots, ⟨h.logged.entry, h.logged.nonces, h.logged.recorded⟩, h.dirty, h.holds, h.ready, h.marked, h.coherent⟩

end Eleos.Shared
