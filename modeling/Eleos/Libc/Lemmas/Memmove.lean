import Eleos.Libc.Lemmas.Scope

/-!
# `memmove_aptr_reg` と `memmove_reg_aptr`
-/

namespace Eleos.Libc

open Pager

variable {cfg : Config} {G : Gcm} {s s' : Sys} {a b : Aptr} {d i n : Nat} {y : Int} {vs dst : List UInt8}

theorem int32_length {n : Nat} (h : n ≤ 0x40000000) : (int32 n).toNat = n := by
  rw [int32_of_range (by omega) (by omega), Int.toNat_natCast]

/-! ## `memmove_aptr_reg` -/

/-- `dst0` の複写に `hint_write` を立てた `Aptr`。 -/
def writeCopy (a : Aptr) : Aptr := { a.doCopy with hintWrite := true }

theorem Writable.page (h : Writable cfg s d a n) (hb : a.basePageIndex < 524288) : a.doCopy.page = a.page - 1 := by
  have h₁ := h.range.lo
  have h₂ := h.range.hi
  have h₃ := h.base
  have h₄ := h.nonneg
  have h₅ := h.int
  have hpool : (cfg.poolPages : Int) ≤ 524288 := by exact_mod_cast cfg.poolPages_le
  unfold Aptr.addr pageSize at h₁ h₂
  exact int32_of_range (by omega) (by omega)

theorem writeCopy_cursor (h : Writable cfg s d a n) (hb : a.basePageIndex < 524288)
    (hfit : a.offset + pageSize < 2147483648) (hs : s'.get i = .ok (writeCopy a)) :
    Cursor s' i (writeCopy a) a.addr := by
  have hoff : (writeCopy a).offset = a.offset + pageSize := by
    have := h.nonneg
    exact int32_of_range (by unfold pageSize; omega) hfit
  refine ⟨hs, h.base, ?_, ?_⟩
  · have hp : (writeCopy a).page = a.page - 1 := h.page hb
    unfold Aptr.addr
    rw [hoff, hp]
    show (a.basePageIndex + (a.page - 1)) * pageSize + (a.offset + pageSize) = _
    ring
  · intro _
    rw [hoff, ← Bool.not_eq_true, isValid_iff]
    have := h.nonneg
    omega

/-- 複写と `hint_write` の設定。 -/
theorem copy_ok (hG : G.Correct) (h : Ready cfg G s) (ha : s.get d = .ok a) : ∃ s₁ s₂,
    s.step cfg G id (.copy d) = .ok s₁ ∧ s₁.step cfg G id (.hint s.aptrs.length true) = .ok s₂ ∧ Ready cfg G s₂ ∧
      s₂.state = s.state ∧ s₂.aptrs = s.aptrs ++ [some (writeCopy a)] := by
  have hb := (h.good.pinned.bounded a (Sys.mem_of_get ha)).base_lt
  have hpush : Ready cfg G (Sys.push s a.doCopy) := h.push hG rfl hb
  refine ⟨Sys.push s a.doCopy, (Sys.push s a.doCopy).set s.aptrs.length (some (writeCopy a)),
    bind_ok_iff.mpr ⟨a, ha, rfl⟩, bind_ok_iff.mpr ⟨a.doCopy, push_get, rfl⟩, hpush.edit hG push_get rfl rfl rfl, rfl, ?_⟩
  unfold Sys.set Sys.push
  rw [List.set_append_right _ _ (Nat.le_refl _), Nat.sub_self]
  rfl

theorem memmoveAptrReg_ok (hG : G.Correct) (h : Ready cfg G s) (hw : Writable cfg s d a vs.length)
    (hfit : vs = [] ∨ a.offset + pageSize < 2147483648) : ∃ s', memmoveAptrReg cfg G s d vs = .ok s' ∧
      Returned cfg G s (Range a.addr vs.length) (overlay (lastWrite s.state.trace) a.addr vs) s' ∧
      s'.aptrs = s.aptrs ++ [none] := by
  have hb := (h.good.pinned.bounded a (Sys.mem_of_get hw.get)).base_lt
  obtain ⟨s₁, s₂, hcopy, hhint, hr₂, hst, haptrs⟩ := copy_ok hG h hw.get
  have hget : s₂.get s.aptrs.length = .ok (writeCopy a) := Sys.get_ok_iff.mpr (by rw [haptrs]; simp)
  have hrun : ∃ s₃ a₃, memmoveAptrRegLoop cfg G s.aptrs.length vs.length s₂ vs = .ok s₃ ∧
      Passed cfg G s₂ s.aptrs.length (Range a.addr vs.length) (overlay (lastWrite s₂.state.trace) a.addr vs) s₃ a₃ := by
    rcases hfit with rfl | hfit
    · rw [overlay_nil]
      exact ⟨s₂, writeCopy a, rfl, .refl hr₂ hget⟩
    · exact memmoveAptrRegLoop_ok hG hr₂ (writeCopy_cursor hw hb hfit hget) rfl hw.range
        (fun k hk => room_push (hw.room k hk) haptrs) (Nat.le_refl _)
  obtain ⟨s₃, a₃, hloop, hpass⟩ := hrun
  have haptrs₃ : s₃.aptrs = s.aptrs ++ [some a₃] := by
    rw [hpass.aptrs, haptrs, List.set_append_right _ _ (Nat.le_refl _), Nat.sub_self]
    rfl
  obtain ⟨s₄, hdestroy, hr₄, hlink, htrace, haptrs₄⟩ := leave hG hpass.ready haptrs₃
  refine ⟨s₄, ?_, ⟨hr₄, hlink, ?_, ?_⟩, haptrs₄⟩
  · unfold memmoveAptrReg
    refine bind_ok_iff.mpr ⟨s₁, hcopy, bind_ok_iff.mpr ⟨s₂, hhint, bind_ok_iff.mpr ⟨s₃, ?_, hdestroy⟩⟩⟩
    rw [int32_length hw.small, Nat.sub_self, List.drop_zero]
    exact hloop
  · rw [htrace, hpass.last, hst]
  · rw [htrace, ← hst]
    exact hpass.trace

/-- `do_copy` の `offset + PAGE_SIZE` があふれると、負の番号のページの参照を数えようとする。 -/
theorem memmoveAptrReg_overflow (hG : G.Correct) (h : Ready cfg G s) (hw : Writable cfg s d a vs.length)
    (hov : 2147483648 ≤ a.offset + pageSize) (hne : vs ≠ []) : memmoveAptrReg cfg G s d vs = .error .outOfBounds := by
  have hb := (h.good.pinned.bounded a (Sys.mem_of_get hw.get)).base_lt
  obtain ⟨s₁, s₂, hcopy, hhint, hr₂, hst, haptrs⟩ := copy_ok hG h hw.get
  have hget : s₂.get s.aptrs.length = .ok (writeCopy a) := Sys.get_ok_iff.mpr (by rw [haptrs]; simp)
  have h₁ := hw.nonneg
  have h₂ := hw.int
  have h₃ := hw.range.lo
  have h₄ := hw.range.hi
  have hpool : (cfg.poolPages : Int) ≤ 524288 := by exact_mod_cast cfg.poolPages_le
  have hoff : (writeCopy a).offset = a.offset + pageSize - 4294967296 := by
    show int32 (a.offset + pageSize) = _
    unfold int32 pageSize at *
    omega
  have hp : (writeCopy a).page = a.page - 1 := hw.page hb
  have hv : isValid (writeCopy a).offset = false := by
    rw [hoff, ← Bool.not_eq_true, isValid_iff]
    unfold pageSize
    omega
  have hprm : s₂.state.prm (writeCopy a) = 0 := rfl
  have hindex : int32 ((writeCopy a).basePageIndex +
      int32 ((writeCopy a).page + (writeCopy a).offset / pageSize)) < 0 := by
    rw [int32_add_right, hp, hoff]
    show int32 (a.basePageIndex + (a.page - 1 + _)) < 0
    unfold Aptr.addr pageSize at *
    rw [int32_of_range (by omega) (by omega)]
    omega
  have hretarget : retarget s₂.state (writeCopy a) = .error .outOfBounds := by
    unfold retarget
    dsimp only
    rw [if_neg (by rw [hprm]; exact fun hn => hn rfl)]
    refine bind_error_iff.mpr (Or.inr ⟨_, rfl, bind_error_iff.mpr (Or.inl ?_)⟩)
    unfold PageCache.incRefCount PageCache.setRefCount
    rw [if_neg fun hc => absurd hindex (Int.not_lt.mpr hc.1)]
  have htouch : touch cfg G s₂ s.aptrs.length = .error .outOfBounds := by
    refine bind_error_iff.mpr (Or.inr ⟨_, hget, bind_error_iff.mpr (Or.inl ?_)⟩)
    unfold deref
    dsimp only
    rw [if_neg (by rw [hv]; exact Bool.false_ne_true)]
    exact bind_error_iff.mpr (Or.inl (bind_error_iff.mpr (Or.inl hretarget)))
  unfold memmoveAptrReg
  refine bind_error_iff.mpr (Or.inr ⟨s₁, hcopy, bind_error_iff.mpr (Or.inr ⟨s₂, hhint, bind_error_iff.mpr (Or.inl ?_)⟩)⟩)
  rw [int32_length hw.small, Nat.sub_self, List.drop_zero]
  cases vs with
  | nil => exact absurd rfl hne
  | cons v vs => exact bind_error_iff.mpr (Or.inl htouch)

/-! ## `memmove_reg_aptr` -/

theorem Readable.cursor (h : Readable cfg s d a n) : Cursor s d a a.addr := ⟨h.get, h.base, rfl, h.biased⟩

theorem memmoveRegAptr_eq (hn : dst.length ≤ 0x40000000) :
    memmoveRegAptr cfg G s dst d = memmoveRegAptrLoop cfg G d dst.length s dst.length := by
  unfold memmoveRegAptr
  rw [int32_length hn]
  dsimp only
  rw [Nat.sub_self, List.take_zero]
  cases memmoveRegAptrLoop cfg G d dst.length s dst.length with
  | error e => rfl
  | ok r => rfl

theorem memmoveRegAptr_ok (hG : G.Correct) (h : Ready cfg G s) (hr : Readable cfg s d a dst.length) :
    ∃ s' vs a', memmoveRegAptr cfg G s dst d = .ok (s', vs) ∧
      Passed cfg G s d (Range a.addr dst.length) (lastWrite s.state.trace) s' a' ∧
      a'.addr = lastStart a.addr dst.length ∧ Delivers (lastWrite s.state.trace) a.addr dst.length vs := by
  rw [memmoveRegAptr_eq hr.small]
  exact memmoveRegAptrLoop_ok hG h hr.cursor hr.range hr.room (Nat.le_refl _)

/-- 一つのページに収まる読み出しは、一回の `deref` で終わる。 -/
theorem memmoveRegAptrLoop_page (fuel : Nat) {x : Nat} (ht : touch cfg G s d = .ok (s', b, x)) (ho : b.offset = y % pageSize)
    (hb : b.addr = y) (hn : y % pageSize + (n + 1 : Nat) ≤ pageSize) :
    memmoveRegAptrLoop cfg G d (fuel + 1) s (n + 1) =
      .ok ({ s' with state := (loadBytes s'.state x y (n + 1)).1 }, (loadBytes s'.state x y (n + 1)).2) := by
  unfold memmoveRegAptrLoop
  rw [ht]
  simp only [bind, Except.bind, ho, hb]
  rw [if_neg (by push_cast at hn; omega)]

/-- つながっていてページの中を指す `Aptr` の `deref` は、変更の印のほかに何も変えない。 -/
theorem touch_linked (h : Ready cfg G s) (hc : Cursor s d b y) (hp : InPool cfg y 1) (hi : b.prmPtr = some i)
    (hv : isValid b.offset = true) : touch cfg G s d =
      .ok ({ s with state := s.state.mark i b.hintWrite }.set d (some (b.linkTo i)), b.linkTo i,
        cfg.slot i + (y % pageSize).toNat) := by
  have hd := hc.derefable hp
  have hder : deref cfg G id s.state b = .ok (s.state.mark i b.hintWrite, b.linkTo i, slotAddr cfg b i) :=
    (h.good.pinned.deref_ok_iff hc.get hd).mpr ⟨s.state, i, .hit hv hi, rfl, rfl, rfl⟩
  rw [hc.slotAddr_eq] at hder
  exact bind_ok_iff.mpr ⟨b, hc.get, bind_ok_iff.mpr ⟨_, hder, rfl⟩⟩

theorem mark_epc (t : State) (w : Bool) : (t.mark i w).epc = t.epc := by
  cases w with
  | false => rfl
  | true => rfl

/-- 一つのページに収まる同じ読み出しを続けて行うと、同じ値が得られる。 -/
theorem memmoveRegAptr_again (hG : G.Correct) (h : Ready cfg G s) (hr : Readable cfg s d a dst.length)
    (hpage : a.addr % pageSize + dst.length ≤ pageSize) : ∃ s₁ s₂ vs, memmoveRegAptr cfg G s dst d = .ok (s₁, vs) ∧
      memmoveRegAptr cfg G s₁ dst d = .ok (s₂, vs) := by
  rw [memmoveRegAptr_eq hr.small]
  cases hn : dst.length with
  | zero => exact ⟨s, s, [], rfl, by rw [memmoveRegAptr_eq hr.small, hn]; rfl⟩
  | succ n =>
      have hc := hr.cursor
      obtain ⟨s₁, i, htouch, ht⟩ := hc.touch_head hG h hr.range hr.room (by omega)
      rw [hn] at hpage
      have hld := ht.load hpage
      have hcur : Cursor _ d (a.linkTo i) a.addr := ⟨hld.get hc.get, hc.base, linkTo_addr, fun hn => nomatch hn⟩
      have hv : isValid (a.linkTo i).offset = true := by
        rw [isValid_iff, hc.offset]
        unfold pageSize
        omega
      have hp₁ : InPool cfg a.addr 1 := ⟨hr.range.lo, by have := hr.range.hi; omega⟩
      have h₂ := touch_linked hld.ready hcur hp₁ rfl hv
      have hfirst := memmoveRegAptrLoop_page n htouch hc.offset linkTo_addr hpage
      have hsecond := memmoveRegAptrLoop_page n h₂ hcur.offset (linkTo_addr.trans linkTo_addr) hpage
      rw [← hn, ← memmoveRegAptr_eq hr.small, hn] at hsecond
      refine ⟨_, _, _, hfirst, hsecond.trans (congrArg Except.ok (Prod.ext rfl ?_))⟩
      obtain ⟨l, hl⟩ := loadBytes_state (y := a.addr) s₁.state (cfg.slot i + (a.addr % pageSize).toNat) (n + 1)
      rw [loadBytes_bytes, loadBytes_bytes]
      show List.map (fun k => ((loadBytes s₁.state _ _ _).1.mark i _).epc _) _ = _
      rw [mark_epc, hl]

end Eleos.Libc
