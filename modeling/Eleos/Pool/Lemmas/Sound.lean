import Eleos.Mem5.Lemmas.Foreign
import Eleos.Pager.Lemmas.Placement
import Eleos.Pool.World

/-!
# 割り当てと追い出しの住み分け

変更の印のあるページの全体が `Aptr` のブロックに入っていれば、追い出しは割り当ての記録にも直接使うブロックにも触れない。
この条件を、ページの性質 `K` ごとに操作の列で保つ。
-/

namespace Eleos.Pool

open Eleos.Mem5 (Mem5Global Arena Alloc memsys5Malloc memsys5Free memsys5Init mnReq)
open Eleos.Pager (Config Gcm Sys State pageSize ramPage writePage tryEvictPage)

variable {cfg : Config} {G : Gcm} {m : Mem5Global} {w w' : World} {p : Int} {o : Owned} {z : Nat → UInt8} {x : Nat}
  {op : Pager.Op}

/-- 割り当ての側の状態。 -/
def World.arena (w : World) : Arena := ⟨w.heap, w.live.map Owned.alloc⟩

/-! ## ブロックのバイト -/

theorem Owned.has_iff (h : w.arena.Sound m) (ho : o ∈ w.live) : o.Has w.heap.szAtom x ↔
    (o.alloc.block w.heap.szAtom).start * w.heap.szAtom ≤ x ∧
      (x : Int) < (o.alloc.block w.heap.szAtom).stop * w.heap.szAtom := by
  have hptr : o.alloc.ptr = (o.alloc.block w.heap.szAtom).start * w.heap.szAtom :=
    h.ptr o.alloc (List.mem_map_of_mem ho)
  have hstop : (o.alloc.block w.heap.szAtom).stop * w.heap.szAtom = o.alloc.ptr + o.alloc.size w.heap.szAtom := by
    rw [Block.stop, add_mul]
    exact congrArg₂ (· + ·) hptr.symm (mul_comm _ _)
  rw [hstop, ← hptr]
  rfl

/-- 割り当てたブロックは重ならない。 -/
theorem Owned.eq_of_has {b : Owned} (h : w.arena.Sound m) (ho : o ∈ w.live) (hb : b ∈ w.live)
    (hox : o.Has w.heap.szAtom x) (hbx : b.Has w.heap.szAtom x) : o = b := by
  obtain ⟨free, hh⟩ := h.heap
  have hA := hh.layout.fits.atom
  have hA' : 8 ≤ w.heap.szAtom := hA
  obtain ⟨h₁, h₂⟩ := (Owned.has_iff h ho).mp hox
  obtain ⟨h₃, h₄⟩ := (Owned.has_iff h hb).mp hbx
  -- 番地の属する単位の番号。
  have hdiv : ∀ {s : Int}, s * w.heap.szAtom ≤ x ↔ s ≤ (x : Int) / w.heap.szAtom := fun {s} =>
    (Int.le_ediv_iff_mul_le (by omega)).symm
  have hlt : ∀ {s : Int}, (x : Int) < s * w.heap.szAtom ↔ (x : Int) / w.heap.szAtom < s := fun {s} =>
    (Int.ediv_lt_iff_lt_mul (by omega)).symm
  have hmem {c : Owned} (hc : c ∈ w.live) : c.alloc.block w.heap.szAtom ∈ w.arena.liveBlocks :=
    ⟨c.alloc, List.mem_map_of_mem hc, rfl⟩
  have hblock := hh.layout.tiling.disjoint _ (Or.inl (Or.inr (hmem ho))) _ (Or.inl (Or.inr (hmem hb)))
    ((x : Int) / w.heap.szAtom) ⟨hdiv.mp h₁, hlt.mp h₂⟩ ⟨hdiv.mp h₃, hlt.mp h₄⟩
  have hnd : (w.live.map fun c => c.alloc.block w.heap.szAtom).Nodup := by
    have := h.nodup
    rwa [World.arena, List.map_map] at this
  exact List.inj_on_of_nodup_map hnd ho hb hblock

/-! ## プールの書き換え -/

/-- `z` は、`Aptr` を通して使うブロックの中だけで異なる。 -/
def World.AptrOnly (w : World) (z : Nat → UInt8) : Prop :=
  ∀ x, z x ≠ w.heap.zPool x → ∃ o ∈ w.live, o.use = .aptr ∧ o.Has w.heap.szAtom x

theorem confined_of_live (h : w.arena.Sound m)
    (hz : ∀ x, z x ≠ w.heap.zPool x → ∃ o ∈ w.live, o.Has w.heap.szAtom x) :
    w.heap.Confined w.arena.liveBlocks z := by
  intro x hx
  obtain ⟨o, ho, hox⟩ := hz x hx
  exact ⟨_, ⟨o.alloc, List.mem_map_of_mem ho, rfl⟩, (Owned.has_iff h ho).mp hox⟩

theorem World.AptrOnly.confined (h : w.arena.Sound m) (hz : w.AptrOnly z) :
    w.heap.Confined w.arena.liveBlocks z :=
  confined_of_live h fun x hx =>
    let ⟨o, ho, _, hox⟩ := hz x hx
    ⟨o, ho, hox⟩

theorem World.AptrOnly.spared (h : w.arena.Sound m) (hz : w.AptrOnly z) : w.Spared z := by
  have hc := hz.confined h
  obtain ⟨free, hh⟩ := h.heap
  refine ⟨?_, hh.filled_freeBlocks hc, fun i h₀ h₁ => hc.ctrl_eq hh.layout ⟨h₀, h₁⟩⟩
  rintro x (⟨b, hb, hx⟩ | hx | ⟨o, ho, huse, hox⟩)
  · have hb' : b ∈ Mem5.freeSet free := by
      rw [← hh.layout.lists.freeBlocks_eq]
      exact hb
    exact hc.link_eq hh.layout hb' hx
  · have hin : w.heap.In ((x : Int) - w.heap.nBlock * w.heap.szAtom) := ⟨by omega, by omega⟩
    by_contra hne
    obtain ⟨b, hb, hbx⟩ := hc x hne
    refine hh.layout.not_ctrlByte hb hbx hin ?_
    show (x : Int) = w.heap.nBlock * w.heap.szAtom + _
    omega
  · by_contra hne
    obtain ⟨b, hb, hbuse, hbx⟩ := hz x hne
    rw [Owned.eq_of_has h ho hb hox hbx, hbuse] at huse
    cases huse

/-- ページの書き出しは、そのページのバイトだけを変える。 -/
theorem writePage_pageByte {c : Pager.Page} (hp : 0 ≤ p ∧ p < cfg.poolPages)
    (hx : writePage z (ramPage p) c x ≠ z x) : PageByte p x := by
  by_contra hno
  refine hx (Pager.writePage_of_apart ?_)
  rw [Pager.ramPage_eq hp]
  unfold PageByte at hno
  have hnn : 0 ≤ p * pageSize := Int.mul_nonneg hp.1 (Int.natCast_nonneg _)
  omega

theorem aptrOnly_of_covers {c : Pager.Page} (hp : 0 ≤ p ∧ p < cfg.poolPages) (hc : w.Covers p) :
    w.AptrOnly (writePage w.heap.zPool (ramPage p) c) := by
  intro x hx
  exact hc x (writePage_pageByte hp hx)

/-! ## 不変条件 -/

/-- ページの性質 `K` は、変更の印のあるページを含み、`hint_write` の立った `Aptr` で参照をたどったページのほかには増えない。 -/
structure Watch (cfg : Config) (G : Gcm) (K : State → Int → Prop) : Prop where
  dirty : ∀ s p, s.Dirty p → K s p
  pool : ∀ s z p, K { s with pool := z } p ↔ K s p
  step : ∀ (s s' : Sys) op p, s.Placed cfg → Pager.Guard cfg s op → s.step cfg G id op = .ok s' → K s'.state p →
    K s.state p ∨ ∃ d a, op.aptr? = some d ∧ s.get d = .ok a ∧ a.hintWrite = true ∧ a.target = p

variable {K : State → Int → Prop}

structure World.Sound (cfg : Config) (m : Mem5Global) (K : State → Int → Prop) (w : World) : Prop where
  arena : w.arena.Sound m
  placed : w.sys.Placed cfg
  covered : ∀ p, K w.sys.state p → w.Covers p

/-- 割り当ての側の操作の結果。`K` の成り立つページのバイトは変わらない。 -/
structure World.Beside (cfg : Config) (m : Mem5Global) (K : State → Int → Prop) (w w' : World) : Prop where
  sound : w'.Sound cfg m K
  sys : w'.sys = w.sys
  bytes : ∀ p, K w.sys.state p → ∀ x, PageByte p x → w'.heap.zPool x = w.heap.zPool x

theorem World.Covers.mono (h : w.Covers p) (hA : w'.heap.szAtom = w.heap.szAtom)
    (hl : ∀ o ∈ w.live, (∃ x, PageByte p x ∧ o.Has w.heap.szAtom x) → o ∈ w'.live) : w'.Covers p := by
  intro x hx
  obtain ⟨o, ho, huse, hox⟩ := h x hx
  exact ⟨o, hl o ho ⟨x, hx, hox⟩, huse, by rw [hA]; exact hox⟩

/-- 割り当てたブロックのバイトを変えない呼び出しは、そこに入るページのバイトを変えない。 -/
theorem World.Covers.spared {m' : Mem5Global} {B : Set Block} (h : w.Covers p) (hs : w.arena.Sound m)
    (hst : w.heap.Steady m' B)
    (hB : ∀ o ∈ w.live, (∃ x, PageByte p x ∧ o.Has w.heap.szAtom x) → o.alloc.block w.heap.szAtom ∈ B)
    (hx : PageByte p x) : m'.zPool x = w.heap.zPool x := by
  obtain ⟨o, ho, _, hox⟩ := h x hx
  exact hst.spares x ⟨_, hB o ho ⟨x, hx, hox⟩, (Owned.has_iff hs ho).mp hox⟩

theorem memsys5Malloc_out {n : Int} {r : Option Int} {m' : Mem5Global} (hn : ¬ (0 < n ∧ n ≤ 1073741824))
    (h : memsys5Malloc m n = .ok (m', r)) : m' = m ∧ r = none := by
  unfold Mem5.memsys5Malloc at h
  by_cases hpos : 0 < n
  · have hbig : 0x40000000 < n := by omega
    rw [if_pos hpos] at h
    unfold Mem5.memsys5MallocUnsafe at h
    obtain ⟨_, _, h⟩ := bind_ok_iff.mp h
    rw [if_pos hbig] at h
    cases h
    exact ⟨rfl, rfl⟩
  · rw [if_neg hpos] at h
    cases h
    exact ⟨rfl, rfl⟩

theorem World.Sound.refl_beside (h : w.Sound cfg m K) : w.Beside cfg m K w := ⟨h, rfl, fun _ _ _ _ => rfl⟩

theorem World.Sound.malloc {use : Use} {n : Int} (h : w.Sound cfg m K)
    (hs : w.step cfg G (.malloc use n) = .ok w') : w.Beside cfg m K w' := by
  obtain ⟨⟨m', r⟩, hm, hs⟩ := bind_ok_iff.mp hs
  by_cases hn : 0 < n ∧ n ≤ 1073741824
  · obtain ⟨m₁, r₁, he, hnone, hsome⟩ := h.arena.malloc hn.1 hn.2
    cases he.symm.trans hm
    cases r with
    | none =>
        obtain ⟨hw, _⟩ := hnone rfl
        cases hs
        rw [hw]
        exact h.refl_beside
    | some q =>
        cases hs
        obtain ⟨hsound, hst⟩ := hsome q rfl
        refine ⟨⟨hsound, h.placed, ?_⟩, rfl, ?_⟩
        · intro p hp
          exact (h.covered p hp).mono hst.szAtom fun o ho _ => List.mem_cons_of_mem _ ho
        · intro p hp x hx
          exact (h.covered p hp).spared h.arena hst (fun o ho _ => ⟨o.alloc, List.mem_map_of_mem ho, rfl⟩) hx
  · obtain ⟨rfl, rfl⟩ := memsys5Malloc_out hn hm
    cases hs
    exact h.refl_beside

theorem map_erase_of_nodup {α β : Type} [DecidableEq α] [DecidableEq β] {f : α → β} {l : List α} {a : α}
    (hl : (l.map f).Nodup) (ha : a ∈ l) : (l.erase a).map f = (l.map f).erase (f a) := by
  induction l with
  | nil => cases ha
  | cons b l ih =>
      rw [List.map_cons, List.nodup_cons] at hl
      by_cases hb : b = a
      · subst hb
        simp
      · have ha' : a ∈ l := (List.mem_cons.mp ha).resolve_left (Ne.symm hb)
        have hne : f b ≠ f a := fun he => hl.1 (he ▸ List.mem_map_of_mem ha')
        rw [List.erase_cons_tail (by simpa using hb), List.map_cons, List.map_cons,
          List.erase_cons_tail (by simpa using hne), ih hl.2 ha']

theorem World.Sound.free (h : w.Sound cfg m K) (ho : o ∈ w.live)
    (hc : ∀ p, K w.sys.state p → ∀ x, PageByte p x → ¬ o.Has w.heap.szAtom x)
    (hs : w.step cfg G (.free o) = .ok w') : w.Beside cfg m K w' := by
  obtain ⟨m', hm, hs⟩ := bind_ok_iff.mp hs
  cases hs
  obtain ⟨m₁, he, hsound, hst⟩ := h.arena.free (List.mem_map_of_mem ho)
  cases he.symm.trans hm
  have hnd : (w.live.map Owned.alloc).Nodup := List.Nodup.of_map _ h.arena.nodup
  have hlive : w.live.Nodup := List.Nodup.of_map _ hnd
  have hne {p : Int} {b : Owned} (hp : K w.sys.state p) (hb : ∃ x, PageByte p x ∧ b.Has w.heap.szAtom x) : b ≠ o := by
    rintro rfl
    obtain ⟨x, hx, hbx⟩ := hb
    exact hc p hp x hx hbx
  refine ⟨⟨?_, h.placed, ?_⟩, rfl, ?_⟩
  · show Arena.Sound m ⟨m', (w.live.erase o).map Owned.alloc⟩
    rw [map_erase_of_nodup hnd ho]
    exact hsound
  · intro p hp
    refine (h.covered p hp).mono hst.szAtom fun b hb hbp => ?_
    exact (hlive.mem_erase_iff).mpr ⟨hne hp hbp, hb⟩
  · intro p hp x hx
    refine (h.covered p hp).spared h.arena hst ?_ hx
    intro b hb hbp
    refine ⟨⟨b.alloc, List.mem_map_of_mem hb, rfl⟩, fun heq => hne hp hbp ?_⟩
    have hinj : (w.live.map fun c => c.alloc.block w.heap.szAtom).Nodup := by
      have := h.arena.nodup
      rwa [World.arena, List.map_map] at this
    exact List.inj_on_of_nodup_map hinj hb ho heq

theorem World.Sound.store {i : Nat} {v : UInt8} (h : w.Sound cfg m K) (ho : o ∈ w.live) (huse : o.use = .direct)
    (hi : (i : Int) < o.alloc.nByte) (hs : w.step cfg G (.store o i v) = .ok w') : w.Beside cfg m K w' := by
  cases hs
  obtain ⟨free, hh⟩ := h.arena.heap
  have hhas : o.Has w.heap.szAtom (o.alloc.ptr.toNat + i) := by
    have hA := hh.layout.fits.atom
    have hA' : 8 ≤ w.heap.szAtom := hA
    obtain ⟨hpos, hle⟩ := h.arena.bytes o.alloc (List.mem_map_of_mem ho)
    have hsize := (Mem5.logOf_spec hle (s := w.heap.szAtom) (by omega)).2.1
    have hptr : o.alloc.ptr = (o.alloc.block w.heap.szAtom).start * w.heap.szAtom :=
      h.arena.ptr o.alloc (List.mem_map_of_mem ho)
    have hin := hh.layout.in_of_mem (Or.inl (Or.inr ⟨o.alloc, List.mem_map_of_mem ho, rfl⟩))
      (o.alloc.block w.heap.szAtom).has_start
    have hnn : 0 ≤ o.alloc.ptr := by
      rw [hptr]
      exact Int.mul_nonneg hin.1 (by omega)
    have hsz : o.alloc.size w.heap.szAtom = w.heap.szAtom * 2 ^ Mem5.logOf w.heap.szAtom o.alloc.nByte := rfl
    unfold Owned.Has
    omega
  have hconf : w.heap.Confined w.arena.liveBlocks
      (Function.update w.heap.zPool (o.alloc.ptr.toNat + i) v) := by
    refine confined_of_live h.arena fun x hx => ⟨o, ho, ?_⟩
    by_cases hxe : x = o.alloc.ptr.toNat + i
    · rw [hxe]
      exact hhas
    · exact absurd (Function.update_of_ne hxe _ _) hx
  refine ⟨⟨h.arena.filled hconf, h.placed, h.covered⟩, rfl, ?_⟩
  intro p hp x hx
  obtain ⟨b, hb, hbuse, hbx⟩ := h.covered p hp x hx
  have hne : x ≠ o.alloc.ptr.toNat + i := by
    rintro rfl
    rw [Owned.eq_of_has h.arena ho hb hhas hbx, hbuse] at huse
    cases huse
  exact Function.update_of_ne hne _ _

/-! ## `Aptr` の操作 -/

theorem guard_shared (h : Pager.Guard cfg w.sys op) : Pager.Guard cfg w.shared op := by
  cases op <;> exact h

theorem World.Sound.dirty_range (h : w.Sound cfg m K) (hd : w.sys.state.Dirty p) : 0 ≤ p ∧ p < cfg.poolPages := by
  obtain ⟨it, hit, _⟩ := hd
  exact h.placed.wf.page_range p it hit

/-- 追い出しのあとのプールは、`Aptr` のブロックの中だけで異なる。 -/
theorem World.Sound.aptrOnly {t : State} (hK : Watch cfg G K) (h : w.Sound cfg m K)
    (ht : Pager.Outflow w.shared.state t) : w.AptrOnly t.pool := by
  cases ht with
  | keep hp _ _ =>
      intro x hx
      rw [hp] at hx
      exact absurd rfl hx
  | page hd hp _ _ =>
      rw [hp]
      exact aptrOnly_of_covers (h.dirty_range hd) (h.covered _ (hK.dirty _ _ hd))

theorem World.step_aptr_ok (hs : w.step cfg G (.aptr op) = .ok w') :
    ∃ s, w.shared.step cfg G id op = .ok s ∧ w' = { w with sys := s }.withPool s.state.pool := by
  obtain ⟨s, hstep, hs⟩ := bind_ok_iff.mp hs
  cases hs
  exact ⟨s, hstep, rfl⟩

theorem World.Sound.aptr (hK : Watch cfg G K) (h : w.Sound cfg m K) (hg : Guard cfg w (.aptr op))
    (hc : Careful (fun w p => K w.sys.state p) w (.aptr op)) (hs : w.step cfg G (.aptr op) = .ok w')
    (hw : w'.sys.Within cfg) : w'.Sound cfg m K := by
  obtain ⟨s, hstep, rfl⟩ := World.step_aptr_ok hs
  have hpl : w.shared.Placed cfg := h.placed.withPool
  have hg' := guard_shared hg.1
  have honly := h.aptrOnly hK (Pager.step_outflow hpl hg' hstep)
  refine ⟨h.arena.filled (honly.confined h.arena), (Pager.step_move hpl.pinned hg' hstep).placed hpl hw, ?_⟩
  intro p hp
  rcases hK.step _ _ _ p hpl hg' hstep hp with hold | ⟨d, a, hop, ha, hh, rfl⟩
  · exact h.covered p ((hK.pool _ _ p).mp hold)
  · cases op with
    | read e =>
        cases hop
        exact hc a ha hh
    | write e v =>
        cases hop
        exact hc a ha hh
    | construct y n => cases hop
    | null junk => cases hop
    | copy src => cases hop
    | assign dst src => cases hop
    | move e n k => cases hop
    | hint e b => cases hop
    | reset e => cases hop
    | destroy e => cases hop

theorem World.Sound.step {op : Op} (hK : Watch cfg G K) (h : w.Sound cfg m K) (hg : Guard cfg w op)
    (hc : Careful (fun w p => K w.sys.state p) w op) (hs : w.step cfg G op = .ok w') (hw : w'.sys.Within cfg) :
    w'.Sound cfg m K := by
  cases op with
  | malloc use n => exact (h.malloc hs).sound
  | free o => exact (h.free hg hc hs).sound
  | store o i v => exact (h.store hg.1 hg.2.1 hg.2.2 hs).sound
  | aptr op => exact h.aptr hK hg hc hs hw

theorem World.init_sound {y : Nat → UInt8} {pSize : Nat} (hK : ∀ pool epc key rand p,
    ¬ K (State.init cfg epc pool key rand) p) (hinit : memsys5Init y pSize mnReq = .ok m) (epc : Nat → UInt8)
    (key : Pager.Key) (rand : Nat → Pager.Nonce) : (World.init cfg m epc key rand).Sound cfg m K := by
  obtain ⟨free, hh⟩ := Mem5.memsys5Init_heap hinit (Mem5.memsys5Init_fits hinit).size
  exact ⟨Arena.init_sound hh, Sys.init_placed cfg epc m.zPool key rand, fun p hp => absurd hp (hK _ _ _ _ p)⟩

theorem Reach.sound {C : World → Op → Prop} (hK : Watch cfg G K)
    (hinit : ∀ pool epc key rand p, ¬ K (State.init cfg epc pool key rand) p)
    (hC : ∀ w op, C w op → Careful (fun w p => K w.sys.state p) w op) (h : Reach cfg G C w) :
    ∃ m, w.Sound cfg m K := by
  induction h with
  | init epc key rand hm _ => exact ⟨_, World.init_sound hinit hm epc key rand⟩
  | step _ hg hc hs hw ih =>
      obtain ⟨m, hm⟩ := ih
      exact ⟨m, hm.step hK hg (hC _ _ hc) hs hw⟩

/-! ## 変更の印のあるページ -/

theorem watch_dirty (cfg : Config) (G : Gcm) : Watch cfg G State.Dirty where
  dirty := fun _ _ h => h
  pool := fun _ _ _ => Iff.rfl
  step := fun _ _ _ _ hpl hg hs hp => Pager.step_dirty hpl hg hs hp

/-- 追い出しは、割り当ての記録にも直接使うブロックにも触れない。 -/
theorem World.Sound.undamaged (hK : Watch cfg G K) (h : w.Sound cfg m K) : w.Undamaged cfg G := by
  refine ⟨?_, ?_⟩
  · intro it st hit hev
    refine World.AptrOnly.spared h.arena ?_
    obtain ⟨_, ⟨_, rfl⟩ | ⟨htag, e, _, rfl⟩⟩ := Pager.tryEvictPage_ok_iff.mp hev
    · exact fun x hx => absurd rfl hx
    · have hd : w.sys.state.Dirty it.pageIndex := ⟨it, hit, htag⟩
      exact aptrOnly_of_covers (h.dirty_range hd) (h.covered _ (hK.dirty _ _ hd))
  · intro op w' hg hs
    obtain ⟨s, hstep, rfl⟩ := World.step_aptr_ok hs
    have hpl : w.shared.Placed cfg := h.placed.withPool
    exact (h.aptrOnly hK (Pager.step_outflow hpl (guard_shared hg.1) hstep)).spared h.arena

end Eleos.Pool
