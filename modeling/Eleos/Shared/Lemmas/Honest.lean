import Eleos.Shared.Lemmas.Content

/-!
# 正直なホスト

ホストがプールを書き換えなければ、控えはプールに残り、復号は必ず成功して、最後に暗号化した内容を返す。
-/

namespace Eleos.Shared

open Eleos.Pager

variable {n : Nat} {cfg : Config} {G : Gcm} {m : Machine n} {t : Fin n} {s : State} {th : Thread}

/-- 最後に暗号化した内容は、プールに残っている。 -/
structure Intact (cfg : Config) (s : State) : Prop where
  range : ∀ p it, s.l1.get p = some it → 0 ≤ p ∧ p < cfg.poolPages
  stored : ∀ p e, lastSeal s.trace p = some e → (0 ≤ p ∧ p < cfg.poolPages) ∧ readPage s.pool (ramPage p) = e.cipher

theorem Intact.unseals {p : Int} {e : Seal} (hG : G.Correct) (h : Intact cfg s) (hl : s.Logged G)
    (he : lastSeal s.trace p = some e) : ∃ y, s.llc.get p = some y ∧
      G.decrypt s.evictionKey y.nonce (readPage s.pool (ramPage p)) y.mac = some e.plain := by
  obtain ⟨y, hy, hn, ht⟩ := hl.entry_of_lastSeal he
  have henc := (lastSeal_spec hl.recorded he).2
  rw [(h.stored p e he).2.symm, ← hn, ← ht] at henc
  exact ⟨y, hy, hG.decrypt_eq henc⟩

/-- 正直なホストのもとでは、復号は最後に暗号化した内容を返す。 -/
theorem Intact.trusted (hG : G.Correct) (h : Intact cfg m.mem) (hl : m.mem.Logged G) : Trusted G m s := by
  intro p i e hu _
  cases hu with
  | absent hn =>
      have hentry := hl.entry p
      rw [hn] at hentry
      simpa using hentry
  | @present y plain hy hd =>
      obtain ⟨e₀, he, _, _⟩ := hl.lastSeal_of_entry hy
      obtain ⟨y', hy', hd'⟩ := h.unseals hG hl he
      cases hy.symm.trans hy'
      cases hd.symm.trans hd'
      simp [he]

theorem Intact.exists_unseals {p : Int} (hG : G.Correct) (h : Intact cfg s) (hl : s.Logged G) : ∃ e, s.Unseals G p e := by
  cases hy : s.llc.get p with
  | none => exact ⟨none, .absent hy⟩
  | some y =>
      obtain ⟨e₀, he, _, _⟩ := hl.lastSeal_of_entry hy
      obtain ⟨y', hy', hd'⟩ := h.unseals hG hl he
      exact ⟨_, .present hy' hd'⟩

/-- 変更のある追い出しは、追い出すページの控えだけを書き換える。 -/
theorem Intact.flush {it : Item} {e : Seal} (h : Intact cfg s) (hit : s.l1.get it.pageIndex = some it) {p : Int}
    {e' : Seal} (he : lastSeal ((s.writeBack it e).drop it (some e)).trace p = some e') :
    (0 ≤ p ∧ p < cfg.poolPages) ∧ readPage (s.writeBack it e).pool (ramPage p) = e'.cipher := by
  have hrange := h.range _ _ hit
  simp only [State.drop, State.writeBack, lastSeal] at he
  split at he
  · rename_i hp
    cases he
    rw [hp]
    exact ⟨hrange, by simp [State.writeBack]⟩
  · rename_i hp
    obtain ⟨hr, hc⟩ := h.stored p e' he
    rw [← hc]
    exact ⟨hr, readPage_writePage_of_apart (ramPage_apart hr hrange hp)⟩

theorem Effect.intact (hw : Threads.Inv cfg m.world) (h : Intact cfg m.mem) (he : Effect G m t s th) :
    Intact cfg s := by
  cases he with
  | @quiet c f _ hc _ =>
      refine ⟨fun p it hp => h.range p it ?_, h.stored⟩
      rw [← hp, PageCache.get, PageCache.get, hc]
  | @evict p q it _ hpc hz hit hev =>
      obtain ⟨t', ht', rfl⟩ := evictLocked_ok_iff.mp hev
      have htable : m.mem.l1.table.Wf Item.pageIndex := hw.cache.table
      have hget {q : Int} {jt : Item}
          (hq : Table.get Item.pageIndex (m.mem.l1.table.remove Item.pageIndex it.pageIndex) q = some jt) :
          0 ≤ q ∧ q < cfg.poolPages := by
        by_cases hne : q = it.pageIndex
        · rw [hne, Table.get_remove_self htable] at hq
          cases hq
        · rw [Table.get_remove_ne hne] at hq
          exact h.range q jt hq
      obtain ⟨_, ⟨_, rfl⟩ | ⟨_, e, _, rfl⟩⟩ := tryEvictPage_ok_iff.mp ht'
      · exact ⟨fun q jt hq => hget hq, h.stored⟩
      · rw [← PageCache.pageIndex_of_get hit] at hit
        exact ⟨fun q jt hq => hget hq, fun q e' he' => h.flush hit he'⟩
  | load hpc hu => exact ⟨h.range, h.stored⟩
  | @enter p i hpc hg =>
      refine ⟨?_, h.stored⟩
      intro q it hq
      by_cases hqp : q = p
      · rw [hqp]
        exact (hw.threads t).pinned p (by simp [Threads.Thread.pin, Threads.Pc.pin, Thread.erase, hpc, Pc.erase])
      · exact h.range q it ((Table.get_append_ne hqp).symm.trans hq)
  | mark hl => exact ⟨fun p it hp => h.range p it (State.mark_l1 ▸ hp), h.stored⟩
  | read hl => exact ⟨h.range, h.stored⟩
  | write hl hm => exact ⟨h.range, h.stored⟩

theorem tryEvictPage_progress {it : Item} (hG : G.Correct) (hit : s.l1.get it.pageIndex = some it) :
    ∃ s', tryEvictPage G s it = .ok s' := by
  cases ht : tagBit (s.epcArr it.epc) with
  | false => exact ⟨_, tryEvictPage_ok_iff.mpr ⟨⟨it, hit⟩, Or.inl ⟨ht, rfl⟩⟩⟩
  | true =>
      obtain ⟨d, τ, henc, _⟩ := hG s.evictionKey (s.rand s.randPos) (readPage s.epc (clearTag (s.epcArr it.epc)))
      exact ⟨_, tryEvictPage_ok_iff.mpr ⟨⟨it, hit⟩, Or.inr ⟨ht, ⟨_, _, d, τ⟩, ⟨rfl, rfl, henc⟩, rfl⟩⟩⟩

/-- 正直なホストのもとでは、どの遷移も止まらない。 -/
theorem Outcome.progress {r : Except Stop (Machine n)} (hG : G.Correct) (hcap : 32 ≤ cfg.cacheCapacity)
    (hw : Threads.Inv cfg m.world) (h : Content cfg G m) (hi : Intact cfg m.mem) (ho : Outcome cfg G m t r) :
    ∃ m', r = .ok m' := by
  cases ho with
  | go _ _ => exact ⟨_, rfl⟩
  | stop hs =>
      obtain ⟨c, f, th, heq, _⟩ := hw.goes hcap hs
      cases heq
  | @unsealed p i _ hpc hn =>
      obtain ⟨e, he⟩ := hi.exists_unseals (p := p) hG h.logged
      exact absurd he (hn e)
  | unencrypted hpc hit hn =>
      rw [← PageCache.pageIndex_of_get hit] at hit
      obtain ⟨s', hs'⟩ := tryEvictPage_progress hG hit
      exact absurd hs' (hn s')
  | unmapped hl h0 => exact absurd h0 (h.slots.ne_zero _)

end Eleos.Shared
