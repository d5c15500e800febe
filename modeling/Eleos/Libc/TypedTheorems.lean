import Eleos.Libc.Typed
import Eleos.Libc.Theorems

/-!
# 型の付いた読み書きの性質

`deref` が確かめるのは先頭の一バイトがページの中にあることだけなので、要素がページの終わりをまたぐと、続きは隣の枠に入る。
-/

namespace Eleos.Libc

open Pager

variable {cfg : Config} {G : Gcm} {s s' : Sys} {t : State} {a : Aptr} {d i n : Nat} {y : Int} {vs : List UInt8}

/-! ## 書き込みの届く範囲 -/

/-- 一つの枠の中の書き込みは、ほかの枠を変えない。 -/
theorem storeBytes_frame {j o : Nat} (hs : t.Slots cfg) (hij : i ≠ j) (ho : o + vs.length ≤ pageSize) :
    readPage (storeBytes t (cfg.slot i + o) y vs).epc (clearTag ((storeBytes t (cfg.slot i + o) y vs).epcArr j)) =
      readPage t.epc (clearTag (t.epcArr j)) := by
  obtain ⟨m, l, hst, hm⟩ := storeBytes_state t (cfg.slot i + o) y vs
  rw [hst]
  funext b
  show m (clearTag (t.epcArr j) + b) = t.epc (clearTag (t.epcArr j) + b)
  rw [hs j]
  have hb := b.isLt
  rcases cfg.slot_apart hij with h | h
  · exact hm _ (by omega)
  · exact hm _ (by omega)

/-! ## 収まる要素 -/

theorem InPool.first (h : InPool cfg y n) (hn : 0 < n) : InPool cfg y 1 := ⟨h.lo, by have := h.hi; omega⟩

/-- 書き込み済みの一バイトの読み出し。 -/
theorem readChar_ok {v : UInt8} (hG : G.Correct) (h : Ready cfg G s) (hp : InPool cfg y 1)
    (hr : RoomFor cfg s [y / pageSize]) (hv : lastWrite s.state.trace y = some v) :
    ∃ s', readChar cfg G s y = .ok (s', v) := by
  have hlt := hp.hi
  obtain ⟨a, hcons, hr₁, -, hc₁⟩ := construct_ok (n := 1) hG h ⟨hp.lo, by omega⟩
  obtain ⟨s₂, w, i, hget, hpass, hw⟩ := get_ok hG hr₁ hc₁ hp (room_push hr rfl)
  obtain rfl : w = v := hw v hv
  have haptrs : (Sys.push s a).aptrs = s.aptrs ++ [some a] := rfl
  obtain ⟨s₃, hdestroy, -⟩ := hpass.leave hG haptrs rfl
  exact ⟨s₃, bind_ok_iff.mpr ⟨_, hcons, bind_ok_iff.mpr ⟨_, hget, bind_ok_iff.mpr ⟨s₃, hdestroy, rfl⟩⟩⟩⟩

theorem Element.cursor (h : Element cfg G s d a y n) (hb : a.prmPtr = none → isValid a.offset = false) : Cursor s d a y :=
  ⟨h.get, h.base, h.addr, hb⟩

theorem Element.designates (hG : G.Correct) (h : Element cfg G s d a y n) (hn : 0 < n)
    (hb : a.prmPtr = none → isValid a.offset = false) (hfit : y % pageSize + n ≤ pageSize) : Designates cfg G s d y n := by
  rintro vs rfl
  have hc := h.cursor hb
  have hhead := h.range.first hn
  obtain ⟨s₁, i, htouch, ht⟩ := hc.touch_ok hG (h.session.ready hG) hhead h.room
  have hpass := ht.store vs h.hint hfit
  refine ⟨s₁, a.linkTo i, _, _, htouch, bind_ok_iff.mpr ⟨_, htouch, rfl⟩, ?_, ?_⟩
  · rw [linkTo_addr, hc.addr]
    intro l s'' hcalls hl hout k hk hr
    have hv := List.getElem?_eq_getElem hk
    have hlast : lastWrite s''.state.trace (y + (k : Nat)) = some vs[k] := by
      rw [hl, lastWrite_outside (fun v hmem => hout _ v hmem ⟨by omega, by omega⟩), hpass.last, overlay_inside hk, hv]
    obtain ⟨s₂, hread⟩ := readChar_ok hG (hcalls.ready hG hpass.ready) (h.range.sub (by omega) (by omega)) hr hlast
    exact ⟨s₂, vs[k], hread, hv⟩
  · intro q it hq hne
    have hwf := ht.ready.good.wf
    have hij : i ≠ it.epc := fun hi => hne (hwf.epc_inj q _ it _ hq ht.resident hi.symm)
    exact storeBytes_frame hwf.slots hij (by unfold pageSize at *; omega)

/-- つながっていない `Aptr` の `offset` がページの中の値になっていれば、書き込みは `ASSERT` で止まる。 -/
theorem not_designates_biased (hs : s.get d = .ok a) (hh : a.hintWrite = true) (hl : a.prmPtr = none)
    (hv : isValid a.offset = true) : ¬ Designates cfg G s d y n := by
  intro hd
  obtain ⟨s₁, b, x, s', htouch, -⟩ := hd (List.replicate n 0) List.length_replicate
  obtain ⟨a', ha', htouch⟩ := bind_ok_iff.mp htouch
  cases hs.symm.trans ha'
  obtain ⟨r, hder, -⟩ := bind_ok_iff.mp htouch
  unfold deref markDirty at hder
  simp [hv, hh, hl, Bind.bind, Except.bind] at hder

/-! ## またがる要素 -/

/-- 追い出しも復号も要らない `deref`。先頭の空きの枠を取り、その中身がそのまま残る。 -/
theorem Cursor.touch_cold {rest : List Nat} (hw : s.state.Wf cfg) (hstore : s.state.l1.backingStoreSize = cfg.poolPages)
    (hc : Cursor s d a y) (hl : a.prmPtr = none) (hb : a.basePageIndex < 524288) (hp : InPool cfg y 1)
    (hg : s.state.l1.get (y / pageSize) = none) (hllc : s.state.llc.get (y / pageSize) = none)
    (hsize : s.state.l1.pageCacheSize < cfg.cacheCapacity - maxNumOfThreadsOptimization)
    (hfree : s.state.freeEpcPages = i :: rest) :
    touch cfg G s d = .ok (s.fetched d a ((s.state.relink none (y / pageSize)).install (y / pageSize) i rest none) i,
      a.linkTo i, cfg.slot i + (y % pageSize).toNat) := by
  have hlink : a.linkedPage? = none := by
    rw [Aptr.linkedPage?, hl]
    rfl
  have hring : s.state.l1.usedPages.rear - s.state.l1.usedPages.front ≠ s.state.l1.usedPages.size := by
    have hlen := hw.size
    rw [Ring.toList_length] at hlen
    rw [← hlen, hw.ringSize]
    omega
  have hf : Fetch cfg G id s.state a ((s.state.relink none (y / pageSize)).install (y / pageSize) i rest none) i := by
    rw [← hlink, ← hc.target]
    rw [← hc.target] at hg hllc
    exact .major (hc.biased hl) hg (makeRoom_ok_iff.mpr (Or.inl ⟨hsize, rfl⟩))
      ((loadPage_ok_iff (s := s.state.relink a.linkedPage? a.target) hg).mpr ⟨rest, none, hfree, hring, .absent hllc, rfl⟩)
  have hbound : a.Bounded cfg := ⟨hb, fun h => absurd hl h⟩
  have hder := (deref_ok_iff hw.slots hstore hbound (hc.derefable hp)).mpr ⟨_, i, hf, rfl, rfl, rfl⟩
  rw [show cfg.slot i + (a.offset % (pageSize : Int)).toNat = cfg.slot i + (y % pageSize).toNat from hc.slotAddr_eq] at hder
  exact bind_ok_iff.mpr ⟨a, hc.get, bind_ok_iff.mpr ⟨_, hder, rfl⟩⟩

/-- 構築した `Aptr` の値は、そのときの状態によらない。 -/
theorem construct_exact (hG : G.Correct) (hx : 0 ≤ y ∧ y < cfg.poolPages * pageSize) : ∃ a, Aptr.construct y n = .ok a ∧
    a.prmPtr = none ∧ a.basePageIndex < 524288 ∧ ∀ s, Cursor (Sys.push s a) s.aptrs.length a y := by
  have h₀ : Session cfg G (Sys.init cfg (fun _ => 0) (fun _ => 0) (Vector.replicate 16 0) fun _ => Vector.replicate 12 0) :=
    ⟨_, _, _, _, .refl⟩
  obtain ⟨a, hcons, -, -, hc⟩ := construct_ok (n := n) hG (h₀.ready hG) hx
  obtain ⟨b, hb, heq⟩ := bind_ok_iff.mp hcons
  obtain rfl : b = a := by
    have := congrArg Sys.aptrs (Except.ok.inj heq)
    simpa [Sys.push, Sys.init] using this
  obtain ⟨hl, hlt⟩ := Aptr.base_lt_of_construct hx hb
  exact ⟨b, hb, hl, hlt, fun s => ⟨push_get, hc.base, hc.addr, hc.biased⟩⟩

/-- 枠にも `CryptoCache` にもないページの読み出しは、次の空きの枠の中身を返す。 -/
theorem readChar_cold {rest : List Nat} {v : UInt8} (hG : G.Correct) (hw : s.state.Wf cfg)
    (hstore : s.state.l1.backingStoreSize = cfg.poolPages) (hp : InPool cfg y 1)
    (hg : s.state.l1.get (y / pageSize) = none) (hllc : s.state.llc.get (y / pageSize) = none)
    (hsize : s.state.l1.pageCacheSize < cfg.cacheCapacity - maxNumOfThreadsOptimization)
    (hfree : s.state.freeEpcPages = i :: rest) (h : readChar cfg G s y = .ok (s', v)) :
    v = s.state.epc (cfg.slot i + (y % pageSize).toNat) := by
  have hx : 0 ≤ y ∧ y < cfg.poolPages * pageSize := ⟨hp.lo, by have := hp.hi; omega⟩
  obtain ⟨a, hcons, hl, hb, hc⟩ := construct_exact (n := 1) hG hx
  have htouch := (hc s).touch_cold (s := Sys.push s a) (G := G) hw hstore hl hb hp hg hllc hsize hfree
  obtain ⟨s₁, hstep, h⟩ := bind_ok_iff.mp h
  obtain ⟨b, hb', heq⟩ := bind_ok_iff.mp hstep
  cases hcons.symm.trans hb'
  cases heq
  obtain ⟨r, hget, h⟩ := bind_ok_iff.mp h
  obtain ⟨r', htouch', hr⟩ := bind_ok_iff.mp hget
  cases htouch.symm.trans htouch'
  cases hr
  obtain ⟨s₂, -, h⟩ := bind_ok_iff.mp h
  cases h
  simp [Sys.fetched, Sys.set, State.mark, State.install, State.slotAfter, State.relink]
  split <;> rfl

theorem Session.op {o : Op} (h : Session cfg G s) (hg : Guard cfg s o) (hs : s.step cfg G id o = .ok s')
    (hw : s'.Within cfg) : Session cfg G s' := by
  obtain ⟨epc, pool, key, rand, hc⟩ := h
  refine ⟨epc, pool, key, rand, .step (c := .op o) hc ⟨hg, fun s'' hs'' => ?_⟩ hs⟩
  cases hs.symm.trans hs''
  exact hw

/-- 枠とプールの中身がすべて 0 の、初めの状態。 -/
def blank (cfg : Config) : Sys :=
  Sys.init cfg (fun _ => 0) (fun _ => 0) (Vector.replicate 16 0) fun _ => Vector.replicate 12 0

/-- 初めの状態で、書き込みのための `Aptr` を一つ構築した状態。 -/
theorem exists_first (hG : G.Correct) (hx : 0 ≤ y ∧ y < cfg.poolPages * pageSize) : ∃ s a, Session cfg G s ∧
    s.state = (blank cfg).state ∧ s.aptrs = [some a] ∧ a.prmPtr = none ∧ a.basePageIndex < 524288 ∧
    a.hintWrite = true ∧ Cursor s 0 a y := by
  have h₀ : Session cfg G (blank cfg) := ⟨_, _, _, _, .refl⟩
  obtain ⟨a, hcons, hl, hb, hc⟩ := construct_exact (n := 1) hG hx
  have hr₁ := (h₀.ready hG).push hG hl hb
  have h₁ := h₀.op (o := .construct y 1) hx (bind_ok_iff.mpr ⟨a, hcons, rfl⟩) hr₁.within
  obtain ⟨s₂, hhint, hr₂, hst, haptrs, hc₂⟩ := hint_ok (w := true) hG hr₁ (hc (blank cfg))
  exact ⟨s₂, _, h₁.op (o := .hint 0 true) ⟨a, (hc (blank cfg)).get⟩ hhint hr₂.within, hst, haptrs, hl, hb, rfl, hc₂⟩

/-- ページ `p` だけを枠 `c + 1` に置き、枠 `c` が次に空いている、中身がすべて 0 の状態。 -/
structure Opened (cfg : Config) (G : Gcm) (s : Sys) (p : Int) (c : Nat) : Prop where
  ready : Ready cfg G s
  linked : s.linked = [p]
  zero : ∀ x, s.state.epc x = 0
  free : ∃ rest, s.state.freeEpcPages = c :: rest
  sealed : ∀ q, s.state.llc.get q = none
  size : s.state.l1.pageCacheSize = 1
  only : ∀ q, q ≠ p → s.state.l1.get q = none

theorem exists_opened (hG : G.Correct) (hcap : maxNumOfThreadsOptimization + 2 < cfg.cacheCapacity)
    (hp : InPool cfg y n) (hn : 0 < n) : ∃ s a s₁ c, Element cfg G s 0 a y n ∧ a.prmPtr = none ∧
      isValid a.offset = false ∧ touch cfg G s 0 = .ok (s₁, a.linkTo (c + 1), cfg.slot (c + 1) + (y % pageSize).toNat) ∧
      Opened cfg G s₁ (y / pageSize) c := by
  have hhead : InPool cfg y 1 := hp.first hn
  obtain ⟨c, hc⟩ : ∃ c, cfg.cacheCapacity = c + 1 + 1 := ⟨cfg.cacheCapacity - 2, by omega⟩
  have hx : 0 ≤ y ∧ y < cfg.poolPages * pageSize := ⟨hp.lo, by have := hp.hi; omega⟩
  obtain ⟨s, a, hs, hst, haptrs, hl, hb, hh, hcur⟩ := exists_first hG hx
  have hgood := (hs.ready hG).good
  have hfree : s.state.freeEpcPages = (c + 1) :: c :: (List.range c).reverse := by
    rw [hst]
    show (List.range cfg.cacheCapacity).reverse = _
    rw [hc, List.range_succ, List.reverse_concat, List.range_succ, List.reverse_concat]
  have hget (q : Int) : s.state.l1.get q = none := by
    rw [hst]
    rfl
  have hsize : s.state.l1.pageCacheSize = 0 := by
    rw [hst]
    rfl
  have hlinked : (s.set 0 none).linked = [] := by
    unfold Sys.linked Sys.set
    rw [haptrs]
    rfl
  have hroom : RoomFor cfg (s.set 0 none) [y / pageSize] := roomFor_unlinked hlinked (by omega)
  have htouch := hcur.touch_cold hgood.wf hgood.pinned.store hl hb hhead (hget _) (by rw [hst]; rfl)
    (by omega) hfree (G := G)
  obtain ⟨s₂, j, htouch₂, ht⟩ := hcur.touch_ok hG (hs.ready hG) hhead hroom
  cases htouch.symm.trans htouch₂
  refine ⟨s, a, _, c, ⟨hs, hcur.get, hcur.base, hcur.addr, hh, hp, hroom⟩, hl, hcur.biased hl, htouch, ht.ready, ?_, ?_,
    ⟨(List.range c).reverse, ?_⟩, ?_, ?_, ?_⟩
  · unfold Sys.linked
    rw [ht.aptrs, haptrs]
    show List.filterMap _ [some (a.linkTo (c + 1))] = _
    rw [List.filterMap_cons_some (b := y / pageSize) (by rw [Option.bind_some, Aptr.linkTo_linkedPage?, hcur.target])]
    rfl
  all_goals unfold Sys.fetched Sys.set; rw [hh]
  · intro x
    show s.state.epc x = 0
    rw [hst]
    rfl
  · rfl
  · intro q
    show s.state.llc.get q = none
    rw [hst]
    rfl
  · show s.state.l1.pageCacheSize + 1 = 1
    rw [hsize]
  · intro q hq
    refine (State.get_install (s := s.state.relink none (y / pageSize)) (l := c :: (List.range c).reverse) (e := none)
      (hget _) q).trans ?_
    rw [if_neg hq]
    exact hget q

/-- ページの終わりをまたぐ要素は、初めの状態からの書き込みで壊れる。続きは最後の枠の外に出て、次のページには入らない。 -/
theorem exists_straddle (hG : G.Correct) (hcap : maxNumOfThreadsOptimization + 2 < cfg.cacheCapacity)
    (hp : InPool cfg y n) (hn : 0 < n) (hover : pageSize < y % pageSize + n) : ∃ s d a, Element cfg G s d a y n ∧
      a.prmPtr = none ∧ isValid a.offset = false ∧ ¬ Designates cfg G s d y n := by
  obtain ⟨s, a, s₁, c, helem, hl, hv, htouch, ho⟩ := exists_opened hG hcap hp hn
  refine ⟨s, 0, a, helem, hl, hv, ?_⟩
  intro hd
  obtain ⟨s₂, b, x, s', htouch', hput, hlands⟩ := hd (List.replicate n 1) List.length_replicate
  cases htouch.symm.trans htouch'
  obtain ⟨r, htouch'', hr⟩ := bind_ok_iff.mp hput
  cases htouch.symm.trans htouch''
  cases hr
  obtain ⟨m, l, hstore, hm⟩ := storeBytes_state s₁.state (cfg.slot (c + 1) + (y % pageSize).toNat)
    (a.linkTo (c + 1)).addr (List.replicate n 1)
  rw [hstore] at hlands
  obtain ⟨rest, hfree⟩ := ho.free
  -- 次のページの先頭のバイトを読む。
  have hk : (pageSize - y % (pageSize : Int)).toNat < n := by unfold pageSize at *; omega
  have hpage : (y + ((pageSize - y % (pageSize : Int)).toNat : Nat)) / (pageSize : Int) = y / pageSize + 1 := by
    unfold pageSize
    omega
  obtain ⟨s₃, v, hread, hv'⟩ := hlands.reads [] _ .refl rfl (fun _ _ h => nomatch h) _
    (by rw [List.length_replicate]; exact hk) (roomFor_few (m := 1) (n := 1) rfl (congrArg List.length ho.linked) (by decide) hcap)
  have hval := readChar_cold (s := ⟨{ s₁.state with epc := m, trace := l }, s₁.aptrs⟩) hG ho.ready.good.wf.withBytes ho.ready.good.pinned.store (hp.sub (by omega) (by omega))
    (ho.only _ (by rw [hpage]; omega)) (ho.sealed _) (by rw [ho.size]; omega) hfree hread
  rw [List.getElem?_replicate, if_pos hk] at hv'
  have hzero : m (cfg.slot c + ((y + ((pageSize - y % (pageSize : Int)).toNat : Nat)) % (pageSize : Int)).toNat) = 0 := by
    rw [hm _ (Or.inl ?_), ho.zero]
    unfold Config.slot pageSize
    omega
  have hone : (1 : UInt8) = 0 := (Option.some.inj hv').trans (hval.trans hzero)
  revert hone
  decide

/-! ## 要素の書き込みの正しさ -/

/-- 書いた値がどの状態でも要素に入るのは、要素が一つのページに収まるとき、かつそのときに限る。ただし、つながっていない
`Aptr` の `offset` がページの中の値になっていれば、書き込みは止まる。 -/
theorem designates_iff (hG : G.Correct) (hcap : maxNumOfThreadsOptimization + 2 < cfg.cacheCapacity)
    (hp : InPool cfg y n) (hn : 0 < n) :
    ((∀ s d a, Element cfg G s d a y n → (a.prmPtr = none → isValid a.offset = false) → Designates cfg G s d y n) ↔
      y % pageSize + n ≤ pageSize) ∧
    ∀ s d a, Element cfg G s d a y n → a.prmPtr = none → isValid a.offset = true → ¬ Designates cfg G s d y n := by
  refine ⟨⟨?_, ?_⟩, fun s d a h hl hv => not_designates_biased h.get h.hint hl hv⟩
  · intro hall
    by_contra hover
    obtain ⟨s, d, a, h, hl, hv, hnot⟩ := exists_straddle hG hcap hp hn (Int.not_le.mp hover)
    exact hnot (hall s d a h fun _ => hv)
  · exact fun hfit s d a h hb => h.designates hG hn hb hfit

/-- ページの終わりに接する 16 バイトの要素。 -/
theorem designates_iff_sixteen : ∃ s d a, Element demoConfig demoGcm s d a 4080 16 ∧
    Designates demoConfig demoGcm s d 4080 16 := by
  have hp : InPool demoConfig 4080 16 := ⟨by decide, by decide⟩
  obtain ⟨s, a, s₁, c, helem, hl, hv, -⟩ := exists_opened (n := 16) demoGcm_correct (by decide) hp (by decide)
  have hiff := designates_iff demoGcm_correct (by decide) hp (by decide)
  exact ⟨s, 0, a, helem, hiff.1.mpr (by decide) s 0 a helem fun _ => hv⟩

/-- 番地 0 のブロックに置いた 24 バイトの要素の配列では、170 番目の要素がページの終わりをまたぐ。 -/
theorem straddle_not_designates : ∃ s d a, Element demoConfig demoGcm s d a (0 + 170 * 24) 24 ∧
    (a.prmPtr = none ∧ isValid a.offset = false) ∧ ¬ Designates demoConfig demoGcm s d (0 + 170 * 24) 24 := by
  have hp : InPool demoConfig (0 + 170 * 24) 24 := ⟨by decide, by decide⟩
  obtain ⟨s, d, a, helem, hl, hv, hnot⟩ := exists_straddle (n := 24) demoGcm_correct (by decide) hp (by decide) (by decide)
  exact ⟨s, d, a, helem, ⟨hl, hv⟩, hnot⟩

end Eleos.Libc
