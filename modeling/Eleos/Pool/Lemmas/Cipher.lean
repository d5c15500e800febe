import Eleos.Pool.Lemmas.Sound

/-!
# 割り当てと暗号文の住み分け

`CryptoCache` に項目のあるページも全体が `Aptr` のブロックに入っていれば、プールにはそのページの最後の暗号文が残る。
割り当ての側の操作はそのバイトに触れず、追い出しはほかのページのバイトに触れない。
-/

namespace Eleos.Pool

open Eleos.Mem5 (memsys5Init mnReq)
open Eleos.Pager (Config Gcm Sys State Seal pageSize ramPage readPage lastSeal)

variable {cfg : Config} {G : Gcm} {m : Mem5.Mem5Global} {w w' : World} {p : Int} {op : Pager.Op}

/-! ## 守るページ -/

/-- 変更の印があるか、`CryptoCache` に項目のあるページ。 -/
def Kept (s : State) (p : Int) : Prop := s.Dirty p ∨ ∃ y, s.llc.get p = some y

theorem watch_kept (cfg : Config) (G : Gcm) : Watch cfg G Kept where
  dirty := fun _ _ h => Or.inl h
  pool := fun _ _ _ => Iff.rfl
  step := by
    intro s s' op p hpl hg hs hp
    rcases hp with hp | ⟨y, hy⟩
    · rcases Pager.step_dirty hpl hg hs hp with h | h
      · exact Or.inl (Or.inl h)
      · exact Or.inr h
    · left
      cases Pager.step_outflow hpl hg hs with
      | keep _ hl _ => exact Or.inr ⟨y, hl ▸ hy⟩
      | @page q e hd _ hl _ =>
          -- 新しい項目のページには、変更の印があった。
          by_cases hq : p = q
          · exact Or.inl (hq ▸ hd)
          · exact Or.inr ⟨y, (hl p hq).symm.trans hy⟩

theorem init_not_kept (pool epc : Nat → UInt8) (key : Pager.Key) (rand : Nat → Pager.Nonce) :
    ¬ Kept (State.init cfg epc pool key rand) p := by
  rintro (⟨it, hit, _⟩ | ⟨y, hy⟩)
  · cases hit
  · cases hy

/-! ## 不変条件 -/

/-- 枠の中身と暗号化の記録の不変条件に、最後の暗号文がプールにあることを加える。 -/
structure World.Sealed (cfg : Config) (G : Gcm) (w : World) : Prop where
  good : w.shared.Good cfg G
  logged : w.sys.state.Logged G
  within : w.sys.Within cfg
  kept : ∀ p e, lastSeal w.sys.state.trace p = some e → readPage w.heap.zPool (ramPage p) = e.cipher

/-- 割り当ての側の操作は、暗号文に触れない。 -/
theorem World.Sealed.beside (h : w.Sealed cfg G) (hb : w.Beside cfg m Kept w') : w'.Sealed cfg G := by
  obtain ⟨_, hsys, hbytes⟩ := hb
  have hpage : ∀ p y, w.sys.state.llc.get p = some y →
      readPage w'.heap.zPool (ramPage p) = readPage w.heap.zPool (ramPage p) := by
    intro p y hy
    have hrange : 0 ≤ p ∧ p < cfg.poolPages := h.good.holds.entry_range p y hy
    rw [Pager.ramPage_eq hrange]
    funext o
    refine hbytes p (Or.inr ⟨y, hy⟩) _ ?_
    have hnn : 0 ≤ p * pageSize := Int.mul_nonneg hrange.1 (Int.natCast_nonneg _)
    have ho := o.isLt
    unfold PageByte
    omega
  have hshared : w'.shared = { w.shared with state := { w.shared.state with pool := w'.heap.zPool } } := by
    unfold World.shared
    rw [hsys]
  refine ⟨?_, ?_, ?_, ?_⟩
  · rw [hshared]
    exact h.good.withPool hpage
  · rw [hsys]
    exact h.logged
  · rw [hsys]
    exact h.within
  · intro p e he
    rw [hsys] at he
    obtain ⟨y, hy, _⟩ := h.logged.entry_of_lastSeal he
    rw [hpage p y hy]
    exact h.kept p e he

theorem World.Sealed.aptr (hG : G.Correct) (h : w.Sealed cfg G) (hs : w.Sound cfg m Kept)
    (hg : Guard cfg w (.aptr op)) (hstep : w.step cfg G (.aptr op) = .ok w') (hw : w'.sys.Within cfg) :
    w'.Sealed cfg G := by
  obtain ⟨s, hop, rfl⟩ := World.step_aptr_ok hstep
  have hg' := guard_shared hg.1
  have hlog : w.shared.state.Logged G := ⟨h.logged.entry, h.logged.nonces, h.logged.recorded⟩
  refine ⟨(Pager.step_move h.good.pinned hg' hop).good hG h.good hw, Pager.step_logged hlog hop, hw, ?_⟩
  intro p e he
  show readPage s.state.pool (ramPage p) = e.cipher
  have hpl : w.shared.Placed cfg := hs.placed.withPool
  cases Pager.step_outflow hpl hg' hop with
  | keep hp _ ht =>
      rw [hp]
      exact h.kept p e ((congrFun ht p).symm.trans he)
  | @page q e' hd hp _ ht =>
      rw [hp]
      have he' := (congrFun ht p).symm.trans he
      by_cases hq : p = q
      · subst hq
        rw [Function.update_self] at he'
        cases he'
        exact Pager.readPage_writePage_self
      · rw [Function.update_of_ne hq] at he'
        obtain ⟨y, hy, _⟩ := hlog.entry_of_lastSeal he'
        rw [Pager.readPage_writePage_of_apart
          (Pager.ramPage_apart (h.good.holds.entry_range p y hy) (hs.dirty_range hd) hq)]
        exact h.kept p e he'

theorem World.Sealed.step {op : Op} (hG : G.Correct) (h : w.Sealed cfg G) (hs : w.Sound cfg m Kept)
    (hg : Guard cfg w op) (hc : Careful (fun w p => Kept w.sys.state p) w op) (hstep : w.step cfg G op = .ok w')
    (hw : w'.sys.Within cfg) : w'.Sealed cfg G := by
  cases op with
  | malloc use n => exact h.beside (hs.malloc hstep)
  | free o => exact h.beside (hs.free hg hc hstep)
  | store o i v => exact h.beside (hs.store hg.1 hg.2.1 hg.2.2 hstep)
  | aptr op => exact h.aptr hG hs hg hstep hw

theorem World.init_sealed (epc : Nat → UInt8) (key : Pager.Key) (rand : Nat → Pager.Nonce) :
    (World.init cfg m epc key rand).Sealed cfg G := by
  refine ⟨Pager.Sys.init_good cfg epc m.zPool key rand, State.init_logged cfg epc m.zPool key rand, ⟨?_, ?_⟩, ?_⟩
  · intro p
    exact Nat.zero_le _
  · have := cfg.capacity_pos
    show 0 < _
    omega
  · intro p e he
    cases he

/-- 条件を満たす操作だけで到達できる状態は、どれも不変条件を満たす。 -/
theorem Reach.sealed (hG : G.Correct) (h : Reach cfg G (Careful fun w p => Kept w.sys.state p) w) :
    ∃ m, w.Sound cfg m Kept ∧ w.Sealed cfg G := by
  induction h with
  | init epc key rand hm _ =>
      exact ⟨_, World.init_sound (fun pool epc key rand p => init_not_kept pool epc key rand) hm epc key rand,
        World.init_sealed epc key rand⟩
  | step _ hg hc hs hw ih =>
      obtain ⟨m, hm, hsealed⟩ := ih
      exact ⟨m, hm.step (watch_kept cfg G) hg hc hs hw, hsealed.step hG hm hg hc hs hw⟩

/-! ## 読み戻し -/

theorem World.Sealed.cipher {y : Pager.CryptoItem} (h : w.Sealed cfg G) (hy : w.sys.state.llc.get p = some y) :
    ∃ e, lastSeal w.sys.state.trace p = some e ∧ e.nonce = y.nonce ∧ e.tag = y.mac ∧
      readPage w.heap.zPool (ramPage p) = e.cipher ∧
      G.encrypt w.sys.state.evictionKey e.nonce e.plain = some (e.cipher, e.tag) := by
  obtain ⟨e, he, hn, ht⟩ := h.logged.lastSeal_of_entry hy
  exact ⟨e, he, hn, ht, h.kept p e he, (Pager.lastSeal_spec h.logged.recorded he).2⟩

theorem World.Sealed.intact (hG : G.Correct) (h : w.Sealed cfg G) : w.Intact cfg G := by
  refine ⟨fun p y hy _ => h.cipher hy, ?_⟩
  intro op hg
  have hwithin : w.shared.Within cfg := ⟨h.within.links, h.within.pages⟩
  obtain ⟨s, hs⟩ := Pager.step_progress hG h.good hwithin (guard_shared hg.1)
  exact ⟨_, bind_ok_iff.mpr ⟨s, hs, rfl⟩⟩

end Eleos.Pool
