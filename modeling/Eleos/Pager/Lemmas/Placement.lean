import Eleos.Pager.Lemmas.Coherence
import Eleos.Pager.Lemmas.Freshness

/-!
# 枠の配置とプールへの書き出し

プールの中身によらない不変条件と、一つの操作がプールに書くものを述べる。プールに書くのは追い出しだけであり、
書くのは変更の印のあるページだけである。変更の印が増えるのは、`hint_write` の立った `Aptr` で参照をたどったページだけである。
-/

namespace Eleos.Pager

variable {cfg : Config} {G : Gcm} {host : Host} {s s' : Sys} {t u : State} {a : Aptr} {p q : Int} {i d : Nat}
  {op : Op}

/-! ## 配置の不変条件 -/

theorem Sys.init_placed (cfg : Config) (epc pool : Nat → UInt8) (key : Key) (rand : Nat → Nonce) :
    (Sys.init cfg epc pool key rand).Placed cfg :=
  ⟨Sys.init_pinned cfg epc pool key rand, State.init_wf cfg epc pool key rand, by simp [Sys.init]⟩

theorem Sys.Placed.withPool {m : Nat → UInt8} (h : s.Placed cfg) :
    Sys.Placed cfg { s with state := { s.state with pool := m } } :=
  ⟨⟨h.pinned.slots, h.pinned.store, h.pinned.bounded, h.pinned.count⟩, h.wf.withPool, h.links⟩

theorem Sys.Good.withPool {z : Nat → UInt8} (h : s.Good cfg G)
    (hz : ∀ p y, s.state.llc.get p = some y → readPage z (ramPage p) = readPage s.state.pool (ramPage p)) :
    Sys.Good cfg G { s with state := { s.state with pool := z } } := by
  have hb {p : Int} {c : Page} :
      State.Backed G { s.state with pool := z } p c ↔ s.state.Backed G p c := by
    constructor
    · rintro ⟨y, hy, hc⟩
      exact ⟨y, hy, hz p y hy ▸ hc⟩
    · rintro ⟨y, hy, hc⟩
      exact ⟨y, hy, (hz p y hy).symm ▸ hc⟩
  have hh := h.holds
  refine ⟨⟨h.pinned.slots, h.pinned.store, h.pinned.bounded, h.pinned.count⟩, h.wf.withPool, h.links, ?_, h.coherent⟩
  refine ⟨hh.entry_range, ?_, ?_, hh.clean_entry, hh.resident, ?_⟩
  · intro p y hy
    obtain ⟨c, hc⟩ := hh.decrypts p y hy
    exact ⟨c, hb.mpr hc⟩
  · intro p it c hit ht hc
    exact hh.clean p it c hit ht (hb.mp hc)
  · intro p o v hn hv
    obtain ⟨c, hc, hcv⟩ := hh.absent p o v hn hv
    exact ⟨c, hb.mpr hc, hcv⟩

/-! ## 操作の分類 -/

/-- 参照をたどらない操作は、参照の数のほかにページの管理の状態を変えない。 -/
theorem step_quiet (hp : s.Pinned cfg) (hop : op.aptr? = none) (h : s.step cfg G host op = .ok s') :
    ∃ r, s'.state = { s.state with l1 := { s.state.l1 with refCount := r } } := by
  have hreset {d : Nat} {a a' : Aptr} {t : State} (ha : s.get d = .ok a) (hr : a.reset s.state = .ok (t, a')) :
      t = s.state.unlink a.linkedPage? := by
    rw [hp.reset_eq ha] at hr
    cases hr
    rfl
  cases op with
  | construct x n =>
      obtain ⟨a, _, h⟩ := bind_ok_iff.mp h
      cases h
      exact ⟨_, rfl⟩
  | null junk =>
      cases h
      exact ⟨_, rfl⟩
  | copy src =>
      obtain ⟨a, _, h⟩ := bind_ok_iff.mp h
      cases h
      exact ⟨_, rfl⟩
  | assign dst src =>
      obtain ⟨a, ha, h⟩ := bind_ok_iff.mp h
      obtain ⟨⟨t, a'⟩, hr, h⟩ := bind_ok_iff.mp h
      obtain ⟨b, _, h⟩ := bind_ok_iff.mp h
      cases h
      exact ⟨_, hreset ha hr⟩
  | move d n k =>
      obtain ⟨a, _, h⟩ := bind_ok_iff.mp h
      cases h
      exact ⟨_, rfl⟩
  | hint d b =>
      obtain ⟨a, _, h⟩ := bind_ok_iff.mp h
      cases h
      exact ⟨_, rfl⟩
  | read d => cases hop
  | write d v => cases hop
  | reset d =>
      obtain ⟨a, ha, h⟩ := bind_ok_iff.mp h
      obtain ⟨⟨t, a'⟩, hr, h⟩ := bind_ok_iff.mp h
      cases h
      exact ⟨_, hreset ha hr⟩
  | destroy d =>
      obtain ⟨a, ha, h⟩ := bind_ok_iff.mp h
      obtain ⟨⟨t, a'⟩, hr, h⟩ := bind_ok_iff.mp h
      cases h
      exact ⟨_, hreset ha hr⟩

/-! ## 変更の印 -/

/-- ページ `p` は枠にあり、変更の印がある。 -/
def State.Dirty (s : State) (p : Int) : Prop := ∃ it, s.l1.get p = some it ∧ tagBit (s.epcArr it.epc) = true

theorem Room.dirty_mono (hw : t.Wf cfg) (hr : Room cfg G t u) (h : u.Dirty p) : t.Dirty p := by
  obtain ⟨it, hit, htag⟩ := h
  cases hr with
  | skip _ => exact ⟨it, hit, htag⟩
  | clean _ _ _ _ _ _ => exact ⟨it, (State.mem_drop hw hit).2, htag⟩
  | @dirty jt r e hjt _ _ _ _ _ _ =>
      obtain ⟨hne, hmem⟩ := State.mem_drop hw.writeBack hit
      -- 書き出した項目とは枠が異なる。
      have hepc : it.epc ≠ jt.epc := fun he => hne (hw.epc_inj p _ it jt hmem hjt he)
      refine ⟨it, hmem, ?_⟩
      have htag' : tagBit (Function.update t.epcArr jt.epc (clearTag (t.epcArr jt.epc)) it.epc) = true := htag
      rwa [Function.update_of_ne hepc] at htag'

/-- 枠を得るまでに、変更の印は増えない。 -/
theorem Fetch.dirty (hw : t.Wf cfg) (hf : Fetch cfg G host t a u i) (h : u.Dirty p) : t.Dirty p := by
  cases hf with
  | hit _ _ => exact h
  | minor _ _ => exact h
  | @major s₁ _ _ hv hg hm hl =>
      have hw' : (t.relink a.linkedPage? a.target).Wf cfg := hw.withRefCount
      have hr := makeRoom_room hw' hm
      have hn := makeRoom_get_none hm hg
      obtain ⟨rest, e, hfree, _, _, rfl⟩ := (loadPage_ok_iff (by exact hn)).mp hl
      obtain ⟨it, hit, htag⟩ := h
      rw [State.get_install (s := { s₁ with pool := host s₁.pool }) hn] at hit
      split at hit
      · cases hit
        have hclean := (hr.wf hw').free_clean i (by rw [show s₁.freeEpcPages = i :: rest from hfree]; exact List.mem_cons_self)
        cases hclean.symm.trans htag
      · have hd : s₁.Dirty p := ⟨it, hit, htag⟩
        have ht : (t.relink a.linkedPage? a.target).Dirty p := hr.dirty_mono hw' hd
        exact ht

/-- 変更の印が増えるのは、`hint_write` の立った `Aptr` で参照をたどったページだけである。 -/
theorem step_dirty (hpl : s.Placed cfg) (hg : Guard cfg s op) (h : s.step cfg G host op = .ok s')
    (hp : s'.state.Dirty p) : s.state.Dirty p ∨
      ∃ d a, op.aptr? = some d ∧ s.get d = .ok a ∧ a.hintWrite = true ∧ a.target = p := by
  cases hop : op.aptr? with
  | none =>
      obtain ⟨r, hs⟩ := step_quiet hpl.pinned hop h
      rw [hs] at hp
      exact Or.inl hp
  | some d =>
      obtain ⟨a, t, i, w, ha, hd, _, hf, rfl⟩ := step_deref hpl.pinned hop hg h
      obtain ⟨it, hit, htag⟩ := hp
      simp only [Sys.set, State.access_l1, State.mark_l1, State.access_epcArr] at hit htag
      cases hh : a.hintWrite with
      | false =>
          rw [hh] at htag
          exact Or.inl (hf.dirty hpl.wf ⟨it, hit, htag⟩)
      | true =>
          by_cases hi : it.epc = i
          · -- 印を付けた枠は、参照をたどったページの枠である。
            obtain ⟨hget, _⟩ := hf.get hpl.wf fun j hj => hpl.links a j (Sys.mem_of_get ha) hj
            exact Or.inr ⟨d, a, rfl, ha, hh, (hf.wf hpl.wf hd).epc_inj _ _ _ _ hget hit hi.symm⟩
          · rw [hh] at htag
            have htag' : tagBit (t.epcArr it.epc) = true := by simpa [State.mark, hi] using htag
            exact Or.inl (hf.dirty hpl.wf ⟨it, hit, htag'⟩)

/-! ## プールへの書き出し -/

/-- 操作の前後のプール、`CryptoCache`、最後の暗号化。 -/
inductive Outflow (s t : State) : Prop where
  | keep : t.pool = s.pool → t.llc = s.llc → lastSeal t.trace = lastSeal s.trace → Outflow s t
  | page {q : Int} {e : Seal} : s.Dirty q → t.pool = writePage s.pool (ramPage q) e.cipher →
      (∀ p, p ≠ q → t.llc.get p = s.llc.get p) → lastSeal t.trace = Function.update (lastSeal s.trace) q (some e) →
      Outflow s t

theorem Fetch.outflow (hw : t.Wf cfg) (hf : Fetch cfg G id t a u i) : Outflow t u := by
  cases hf with
  | hit _ _ => exact .keep rfl rfl rfl
  | minor _ _ => exact .keep rfl rfl rfl
  | @major s₁ _ _ hv hg hm hl =>
      have hw' : (t.relink a.linkedPage? a.target).Wf cfg := hw.withRefCount
      have hr := makeRoom_room hw' hm
      have hn := makeRoom_get_none hm hg
      obtain ⟨rest, e, hfree, _, _, rfl⟩ := (loadPage_ok_iff (by exact hn)).mp hl
      cases hr with
      | skip _ => exact .keep rfl rfl rfl
      | clean _ _ _ _ _ _ => exact .keep rfl rfl rfl
      | @dirty jt r e' hjt _ _ _ _ htag _ =>
          refine .page ⟨jt, hjt, htag⟩ rfl (fun p hp => CryptoCache.get_write_ne hp) ?_
          funext p
          by_cases hp : p = jt.pageIndex
          · subst hp
            rw [Function.update_self]
            exact if_pos rfl
          · rw [Function.update_of_ne hp]
            exact if_neg hp

/-- プールに書くのは追い出しだけである。 -/
theorem step_outflow (hpl : s.Placed cfg) (hg : Guard cfg s op) (h : s.step cfg G id op = .ok s') :
    Outflow s.state s'.state := by
  cases hop : op.aptr? with
  | none =>
      obtain ⟨r, hs⟩ := step_quiet hpl.pinned hop h
      rw [hs]
      exact .keep rfl rfl rfl
  | some d =>
      obtain ⟨a, t, i, w, ha, hd, _, hf, rfl⟩ := step_deref hpl.pinned hop hg h
      have hpool : ((t.mark i a.hintWrite).access a (slotAddr cfg a i) w).pool = t.pool := by
        cases w <;> cases a.hintWrite <;> rfl
      have hllc : ((t.mark i a.hintWrite).access a (slotAddr cfg a i) w).llc = t.llc := by
        cases w <;> cases a.hintWrite <;> rfl
      have hseal : lastSeal ((t.mark i a.hintWrite).access a (slotAddr cfg a i) w).trace = lastSeal t.trace := by
        cases w <;> cases a.hintWrite <;> rfl
      cases hf.outflow hpl.wf with
      | keep h₁ h₂ h₃ => exact .keep (hpool.trans h₁) (hllc.trans h₂) (hseal.trans h₃)
      | page h₀ h₁ h₂ h₃ =>
          exact .page h₀ (hpool.trans h₁) (fun p hp => (congrArg (fun c => CryptoCache.get c p) hllc).trans (h₂ p hp)) (hseal.trans h₃)

end Eleos.Pager
