import Eleos.Libc.Lemmas.Cursor

/-!
# `memmove` の繰り返し

一回の `deref` で届く範囲を読み書きし、`Aptr` を進めることを繰り返す。繰り返しの間、ほかの `Aptr` は変わらない。
-/

namespace Eleos.Libc

open Pager

variable {cfg : Config} {G : Gcm} {s s' s'' : Sys} {a a' b : Aptr} {d i : Nat} {y : Int} {vs : List UInt8}
  {R R' : Int → Prop} {M M' : Int → Option UInt8}

/-! ## 一つの `Aptr` だけを使う計算 -/

/-- `d` の `Aptr` だけを使う計算の前後。読み書きは `R` の中だけで行い、書き込みのあとの中身は `M` である。 -/
structure Passed (cfg : Config) (G : Gcm) (s : Sys) (d : Nat) (R : Int → Prop) (M : Int → Option UInt8) (s' : Sys)
    (a' : Aptr) : Prop where
  ready : Ready cfg G s'
  aptrs : s'.aptrs = s.aptrs.set d (some a')
  last : lastWrite s'.state.trace = M
  trace : ∃ l, s'.state.trace = l ++ s.state.trace ∧ ∀ ev ∈ l, Touches R ev

theorem Passed.refl (h : Ready cfg G s) (ha : s.get d = .ok a) : Passed cfg G s d R (lastWrite s.state.trace) s a := by
  exact ⟨h, (aptrs_self ha).symm, rfl, Grown.refl⟩

theorem Passed.mono (h : Passed cfg G s d R M s' a') (hR : ∀ x, R x → R' x) : Passed cfg G s d R' M s' a' := by
  exact ⟨h.ready, h.aptrs, h.last, Grown.mono h.trace hR⟩

theorem Passed.trans {b : Aptr} (h : Passed cfg G s d R M s' b) (h' : Passed cfg G s' d R M' s'' a') :
    Passed cfg G s d R M' s'' a' := by
  refine ⟨h'.ready, ?_, h'.last, Grown.trans h.trace h'.trace⟩
  rw [h'.aptrs, h.aptrs, List.set_set]

theorem Passed.get (ha : s.get d = .ok a) (h : Passed cfg G s d R M s' a') : s'.get d = .ok a' :=
  Sys.get_ok_iff.mpr (get_of_aptrs ha h.aptrs)

theorem Passed.room {ps : List Int} (h : Passed cfg G s d R M s' a') (hr : RoomFor cfg (s.set d none) ps) :
    RoomFor cfg (s'.set d none) ps := by
  refine hr.congr ?_
  unfold Sys.linked Sys.set
  rw [h.aptrs, List.set_set]

/-- つながりを変えない書き換え。 -/
theorem Ready.edit (hG : G.Correct) (h : Ready cfg G s) (ha : s.get d = .ok a) (hl : b.prmPtr = a.prmPtr)
    (hp : b.page = a.page) (hb : b.basePageIndex = a.basePageIndex) : Ready cfg G (s.set d (some b)) := by
  have hlp : b.linkedPage? = a.linkedPage? := by
    unfold Aptr.linkedPage?
    rw [hl, hp, hb]
  have hw : (s.set d (some b)).Within cfg := by
    rw [within_iff, roomFor_set ha, Option.bind_some, hlp, ← Option.bind_some (f := Aptr.linkedPage?), ← roomFor_set ha, set_self ha]
    exact within_iff.mp h.within
  exact ⟨Move.good hG h.good hw (.edit ha hl hp hb), hw⟩

theorem Passed.edit (a' : Aptr) (hG : G.Correct) (ha : s.get d = .ok a) (h : Passed cfg G s d R M s' b)
    (hl : a'.prmPtr = b.prmPtr) (hp : a'.page = b.page) (hb : a'.basePageIndex = b.basePageIndex) :
    Passed cfg G s d R M (s'.set d (some a')) a' := by
  refine ⟨h.ready.edit hG (h.get ha) hl hp hb, ?_, h.last, h.trace⟩
  unfold Sys.set
  rw [h.aptrs, List.set_set]

/-! ## 一回の `deref` で届く範囲 -/

theorem Cursor.offset (h : Cursor s d a y) : (a.linkTo i).offset = y % pageSize := by
  have hy := h.addr
  show a.offset % (pageSize : Int) = y % (pageSize : Int)
  unfold Aptr.addr pageSize at hy
  unfold pageSize
  omega

/-- つながったあとに `n` バイト進める。ページの終わりを越えない限り、`offset` はあふれない。 -/
theorem Cursor.move {n : Int} (hc : Cursor s d a y) (h₀ : 0 ≤ n) (hn : y % pageSize + n ≤ pageSize)
    (hs : s'.get d = .ok (moveAptr (a.linkTo i) n)) : Cursor s' d (moveAptr (a.linkTo i) n) (y + n) where
  get := hs
  base := hc.base
  addr := by
    have hy : (a.linkTo i).addr = y := linkTo_addr.trans hc.addr
    have ho := hc.offset (i := i)
    have h32 : int32 ((a.linkTo i).offset + n) = (a.linkTo i).offset + n := by
      rw [ho]
      unfold pageSize at hn ⊢
      exact int32_of_range (by omega) (by omega)
    unfold Aptr.addr at hy
    unfold Aptr.addr moveAptr
    rw [h32]
    dsimp only
    omega
  biased := fun hn => nomatch hn

theorem page_split (y : Int) : y / (pageSize : Int) * pageSize + ((y % pageSize).toNat : Int) = y := by
  unfold pageSize
  omega

theorem Touched.last (h : Touched cfg G s d a y s' i) : lastWrite s'.state.trace = lastWrite s.state.trace := by
  obtain ⟨l, hl, hp⟩ := h.trace
  rw [hl, lastWrite_append hp]

theorem Touched.passed {t : State} (h : Touched cfg G s d a y s' i)
    (hg : Sys.Good cfg G { s' with state := t }) (hM : lastWrite t.trace = M) (hacc : Grown R s'.state.trace t.trace) :
    Passed cfg G s d R M { s' with state := t } (a.linkTo i) :=
  ⟨⟨hg, h.ready.within.links, h.ready.within.pages⟩, h.aptrs, hM, (Grown.of_paging h.trace).trans hacc⟩

theorem Touched.store (vs : List UInt8) (h : Touched cfg G s d a y s' i) (hh : a.hintWrite = true)
    (hlen : y % pageSize + vs.length ≤ pageSize) :
    Passed cfg G s d (Range y vs.length) (overlay (lastWrite s.state.trace) y vs)
      { s' with state := storeBytes s'.state (cfg.slot i + (y % pageSize).toNat) y vs } (a.linkTo i) := by
  have hlen' : (y % pageSize).toNat + vs.length ≤ pageSize := by
    unfold pageSize at *
    omega
  obtain ⟨hgood, hlast, hacc⟩ := storeBytes_good vs h.ready.good h.resident (h.tagged hh) hlen'
  rw [page_split] at hgood hlast hacc
  rw [h.last] at hlast
  exact h.passed hgood hlast hacc

theorem Touched.load {n : Nat} (h : Touched cfg G s d a y s' i) (hlen : y % pageSize + n ≤ pageSize) :
    Passed cfg G s d (Range y n) (lastWrite s.state.trace)
      { s' with state := (loadBytes s'.state (cfg.slot i + (y % pageSize).toNat) y n).1 } (a.linkTo i) := by
  have hlen' : (y % pageSize).toNat + n ≤ pageSize := by
    unfold pageSize at *
    omega
  obtain ⟨hgood, hlast, hacc⟩ := loadBytes_good h.ready.good h.resident hlen'
  rw [page_split] at hgood hlast hacc
  rw [h.last] at hlast
  exact h.passed hgood hlast hacc

theorem Touched.byte {k : Nat} {w : UInt8} (h : Touched cfg G s d a y s' i) (hk : y % pageSize + k < pageSize)
    (hw : lastWrite s.state.trace (y + k) = some w) :
    s'.state.epc (cfg.slot i + (y % pageSize).toNat + k) = w := by
  rw [← h.last] at hw
  have hy : y / (pageSize : Int) * pageSize + (((y % pageSize).toNat + k : Nat) : Int) = y + k := by
    have := page_split y
    push_cast
    omega
  rw [← hy] at hw
  rw [Nat.add_assoc]
  refine resident_byte h.ready.good h.resident ?_ hw
  unfold pageSize at *
  omega

/-! ## `memmove_aptr_reg` の繰り返し -/

theorem InPool.sub {n m : Nat} {k : Int} (h : InPool cfg y n) (h₀ : 0 ≤ k) (hm : k + m ≤ n) : InPool cfg (y + k) m := by
  have h₁ := h.lo
  have h₂ := h.hi
  exact ⟨by omega, by omega⟩

/-- 途中まで進めたあとの、残りの範囲の余地。 -/
theorem Passed.rest {n m : Nat} {k : Int} (h : Passed cfg G s d R M s' a')
    (hr : ∀ j < n, RoomFor cfg (s.set d none) [(y + (j : Nat)) / pageSize]) (h₀ : 0 ≤ k) (hm : k + m ≤ n) :
    ∀ j < m, RoomFor cfg (s'.set d none) [(y + k + (j : Nat)) / pageSize] := by
  intro j hj
  have hj' := hr (k.toNat + j) (by omega)
  rw [show y + k + (j : Int) = y + ((k.toNat + j : Nat) : Int) by push_cast; omega]
  exact h.room hj'

/-- 範囲の先頭の `deref`。 -/
theorem Cursor.touch_head {n : Nat} (hG : G.Correct) (h : Ready cfg G s) (hc : Cursor s d a y) (hp : InPool cfg y n)
    (hr : ∀ k < n, RoomFor cfg (s.set d none) [(y + (k : Nat)) / pageSize]) (hpos : 0 < n) : ∃ s' i,
      touch cfg G s d = .ok (s', a.linkTo i, cfg.slot i + (y % pageSize).toNat) ∧ Touched cfg G s d a y s' i := by
  have hr₀ := hr 0 hpos
  rw [Nat.cast_zero, Int.add_zero] at hr₀
  have h₁ := hp.lo
  have h₂ := hp.hi
  exact hc.touch_ok hG h ⟨h₁, by omega⟩ hr₀

theorem memmoveAptrRegLoop_ok (hG : G.Correct) {fuel : Nat} (h : Ready cfg G s) (hc : Cursor s d a y)
    (hh : a.hintWrite = true) (hp : InPool cfg y vs.length)
    (hr : ∀ k < vs.length, RoomFor cfg (s.set d none) [(y + (k : Nat)) / pageSize]) (hf : vs.length ≤ fuel) :
    ∃ s' a', memmoveAptrRegLoop cfg G d fuel s vs = .ok s' ∧
      Passed cfg G s d (Range y vs.length) (overlay (lastWrite s.state.trace) y vs) s' a' := by
  induction fuel generalizing s a y vs with
  | zero =>
      obtain rfl : vs = [] := List.eq_nil_of_length_eq_zero (by omega)
      rw [overlay_nil]
      exact ⟨s, a, rfl, .refl h hc.get⟩
  | succ fuel ih =>
      cases vs with
      | nil =>
          rw [overlay_nil]
          exact ⟨s, a, rfl, .refl h hc.get⟩
      | cons v vs =>
          obtain ⟨s₁, i, htouch, ht⟩ := hc.touch_head hG h hp hr (Nat.succ_pos _)
          have hmod : 0 ≤ y % (pageSize : Int) ∧ y % (pageSize : Int) < pageSize := by
            unfold pageSize
            omega
          have hoff := hc.offset (i := i)
          have haddr : (a.linkTo i).addr = y := linkTo_addr.trans hc.addr
          unfold memmoveAptrRegLoop
          rw [htouch]
          simp only [bind, Except.bind, hoff, haddr]
          generalize hus : v :: vs = us at *
          obtain ⟨left, hleft⟩ : ∃ left : Nat, (pageSize : Int) - y % pageSize = left :=
            ⟨((pageSize : Int) - y % pageSize).toNat, by omega⟩
          rw [hleft, Int.toNat_natCast]
          by_cases hlt : (left : Int) < us.length
          · rw [if_pos hlt]
            have hlen : (us.take left).length = left := List.length_take_of_le (by omega)
            have hst := ht.store (us.take left) hh (by rw [hlen]; omega)
            have hmv := hst.edit (moveAptr (a.linkTo i) left) hG hc.get rfl rfl rfl
            have hcur := hc.move (i := i) (n := left) (by omega) (by omega) (hmv.get hc.get)
            have hdrop : (us.drop left).length = us.length - left := List.length_drop
            obtain ⟨s₂, a₂, hrun, hpass⟩ := ih hmv.ready hcur hh (hp.sub (by omega) (by rw [hdrop]; omega))
              (hmv.rest hr (by omega) (by rw [hdrop]; omega)) (by rw [hdrop]; omega)
            refine ⟨s₂, a₂, hrun, ?_⟩
            have hM : overlay (lastWrite s.state.trace) y us =
                overlay (overlay (lastWrite s.state.trace) y (us.take left)) (y + left) (us.drop left) := by
              have := overlay_append (lastWrite s.state.trace) y (us.take left) (us.drop left)
              rw [hlen, List.take_append_drop] at this
              exact this.symm
            rw [hM, ← hmv.last]
            exact (hmv.mono fun _ hx => hx.take (by omega)).trans
              (hpass.mono fun _ hx => hx.sub (by omega) (by rw [hdrop]; omega))
          · rw [if_neg hlt]
            exact ⟨_, _, rfl, ht.store us hh (by omega)⟩

/-! ## `memmove_reg_aptr` の繰り返し -/

/-- `n` バイトを読み終えたときに `src` が指す番地。最後の一回では進めないので、最後に読んだページの先頭になる。 -/
def lastStart (y : Int) (n : Nat) : Int :=
  if y % pageSize + n ≤ pageSize then y else (y + n - 1) / pageSize * pageSize

/-- 読んだ値は、書き込み済みの値に等しい。 -/
def Delivers (M : Int → Option UInt8) (y : Int) (n : Nat) (vs : List UInt8) : Prop :=
  vs.length = n ∧ ∀ k w, k < n → M (y + (k : Nat)) = some w → vs[k]? = some w

theorem Touched.delivers {n : Nat} (h : Touched cfg G s d a y s' i) (hlen : y % pageSize + n ≤ pageSize) :
    Delivers (lastWrite s.state.trace) y n
      (loadBytes s'.state (cfg.slot i + (y % pageSize).toNat) y n).2 := by
  rw [loadBytes_bytes]
  refine ⟨by rw [List.length_map, List.length_range], ?_⟩
  intro k w hk hw
  rw [List.getElem?_map, List.getElem?_range hk, Option.map_some, h.byte (by omega) hw]

theorem Delivers.append {m n : Nat} {us : List UInt8} (h : Delivers M y m us) (h' : Delivers M (y + m) n vs) :
    Delivers M y (m + n) (us ++ vs) := by
  refine ⟨by rw [List.length_append, h.1, h'.1], ?_⟩
  intro k w hk hw
  by_cases hlt : k < m
  · rw [List.getElem?_append_left (by rw [h.1]; exact hlt)]
    exact h.2 k w hlt hw
  · rw [List.getElem?_append_right (by rw [h.1]; omega), h.1]
    refine h'.2 (k - m) w (by omega) ?_
    rw [show y + (m : Int) + ((k - m : Nat) : Int) = y + k by omega]
    exact hw

/-- 書き込み済みの範囲の読み出しは、最後に書き込んだ値を返す。 -/
theorem Delivers.eq {us : List UInt8} (h : Delivers M y vs.length us)
    (hM : ∀ k < vs.length, M (y + (k : Nat)) = vs[k]?) : us = vs := by
  apply List.ext_getElem? fun k => ?_
  by_cases hk : k < vs.length
  · have hv := List.getElem?_eq_getElem hk
    rw [hv]
    exact h.2 k _ hk ((hM k hk).trans hv)
  · rw [List.getElem?_eq_none (by rw [h.1]; omega), List.getElem?_eq_none (by omega)]

theorem memmoveRegAptrLoop_zero {fuel : Nat} (h : Ready cfg G s) (hc : Cursor s d a y) :
    ∃ s' vs a', memmoveRegAptrLoop cfg G d fuel s 0 = .ok (s', vs) ∧
      Passed cfg G s d (Range y 0) (lastWrite s.state.trace) s' a' ∧ a'.addr = lastStart y 0 ∧
      Delivers (lastWrite s.state.trace) y 0 vs := by
  refine ⟨s, [], a, ?_, .refl h hc.get, ?_, rfl, fun k w hk => absurd hk (Nat.not_lt_zero k)⟩
  · cases fuel with
    | zero => rfl
    | succ fuel => rfl
  · unfold lastStart
    rw [if_pos (by unfold pageSize; omega), hc.addr]

theorem memmoveRegAptrLoop_ok (hG : G.Correct) {fuel n : Nat} (h : Ready cfg G s) (hc : Cursor s d a y)
    (hp : InPool cfg y n) (hr : ∀ k < n, RoomFor cfg (s.set d none) [(y + (k : Nat)) / pageSize]) (hf : n ≤ fuel) :
    ∃ s' vs a', memmoveRegAptrLoop cfg G d fuel s n = .ok (s', vs) ∧
      Passed cfg G s d (Range y n) (lastWrite s.state.trace) s' a' ∧ a'.addr = lastStart y n ∧
      Delivers (lastWrite s.state.trace) y n vs := by
  induction fuel generalizing s a y n with
  | zero =>
      obtain rfl : n = 0 := by omega
      exact memmoveRegAptrLoop_zero h hc
  | succ fuel ih =>
      cases n with
      | zero => exact memmoveRegAptrLoop_zero h hc
      | succ n =>
          obtain ⟨s₁, i, htouch, ht⟩ := hc.touch_head hG h hp hr (Nat.succ_pos n)
          have hmod : 0 ≤ y % (pageSize : Int) ∧ y % (pageSize : Int) < pageSize := by
            unfold pageSize
            omega
          have hoff := hc.offset (i := i)
          have haddr : (a.linkTo i).addr = y := linkTo_addr.trans hc.addr
          unfold memmoveRegAptrLoop
          rw [htouch]
          simp only [bind, Except.bind, hoff, haddr]
          obtain ⟨left, hleft⟩ : ∃ left : Nat, (pageSize : Int) - y % pageSize = left :=
            ⟨((pageSize : Int) - y % pageSize).toNat, by omega⟩
          rw [hleft, Int.toNat_natCast]
          by_cases hlt : (left : Int) < (n : Int) + 1
          · rw [if_pos hlt]
            have hld := ht.load (n := left) (by omega)
            have hmv := hld.edit (moveAptr (a.linkTo i) left) hG hc.get rfl rfl rfl
            have hcur := hc.move (i := i) (n := left) (by omega) (by omega) (hmv.get hc.get)
            obtain ⟨m, hm⟩ : ∃ m, n + 1 = left + m := ⟨n + 1 - left, by omega⟩
            rw [show n + 1 - left = m by omega]
            rw [hm] at hp hr ⊢
            obtain ⟨s₂, vs, a₂, hrun, hpass, hend, hdel⟩ := ih hmv.ready hcur
              (hp.sub (m := m) (by omega) (by push_cast; omega)) (hmv.rest hr (by omega) (by push_cast; omega)) (by omega)
            rw [hmv.last] at hpass hdel
            have hpass₂ := (hmv.mono fun _ hx => hx.take (Nat.le_add_right left m)).trans
              (hpass.mono fun _ hx => hx.sub (by omega) (by push_cast; omega))
            refine ⟨s₂, _, a₂, by rw [hrun], hpass₂, ?_, (ht.delivers (n := left) (by omega)).append hdel⟩
            -- 残りの範囲はページの先頭から始まる。
            rw [hend]
            unfold lastStart pageSize at *
            push_cast
            split <;> split <;> omega
          · rw [if_neg hlt]
            refine ⟨_, _, _, rfl, ht.load (by push_cast; omega), ?_, ht.delivers (by push_cast; omega)⟩
            unfold lastStart
            rw [if_pos (by push_cast; omega), haddr]

end Eleos.Libc
