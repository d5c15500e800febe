import Eleos.Libc.Lemmas.Shims
import Eleos.Server.HashMap

/-!
# SUVM を使う表の操作

一つの項目は 16 バイトであり、ページをまたがない。
-/

namespace Eleos.Server

open Pager Libc

variable {cfg : Config} {G : Gcm} {s s' : Sys} {a : Aptr} {d i n : Nat} {x y : Int} {it : Item}
  {M M' : Int → Option UInt8}

/-! ## 項目のバイト -/

/-- 番地 `y` に最後に書き込んだ項目は `it` である。 -/
def Stored (M : Int → Option UInt8) (y : Int) (it : Item) : Prop :=
  ∀ b < 16, M (y + (b : Nat)) = it.bytes[b]?

theorem Item.bytes_length (it : Item) : it.bytes.length = 16 := by
  unfold Item.bytes
  rw [List.length_append, wordBytes_length, wordBytes_length]

theorem Stored.key (h : Stored M y it) {b : Nat} (hb : b < 8) : M (y + (b : Nat)) = (wordBytes it.key)[b]? := by
  rw [h b (by omega), Item.bytes, List.getElem?_append_left (by rw [wordBytes_length]; exact hb)]

theorem Stored.val (h : Stored M y it) {b : Nat} (hb : b < 8) : M (y + 8 + (b : Nat)) = (wordBytes it.val)[b]? := by
  have := h (8 + b) (by omega)
  rw [Item.bytes, List.getElem?_append_right (by rw [wordBytes_length]; omega), wordBytes_length,
    Nat.add_sub_cancel_left] at this
  rw [← this]
  congr 1
  push_cast
  ring

theorem Stored.of_overlay : Stored (overlay M y it.bytes) y it := by
  intro b hb
  exact overlay_inside (by rw [it.bytes_length]; exact hb)

theorem Stored.congr (h : Stored M y it) (hM : ∀ z, Range y 16 z → M' z = M z) : Stored M' y it := by
  intro b hb
  rw [hM _ ⟨by omega, by push_cast; omega⟩]
  exact h b hb

/-- `val` の 8 バイトだけを書き換える。 -/
theorem Stored.overlay_val {v : UInt64} (h : Stored M y it) :
    Stored (overlay M (y + 8) (wordBytes v)) y ⟨it.key, v⟩ := by
  intro b hb
  unfold overlay Item.bytes
  rw [wordBytes_length]
  by_cases hlt : b < 8
  · rw [if_neg (by push_cast; omega), List.getElem?_append_left (by rw [wordBytes_length]; exact hlt)]
    exact h.key hlt
  · rw [if_pos ⟨by omega, by push_cast; omega⟩, List.getElem?_append_right (by rw [wordBytes_length]; omega),
      wordBytes_length, show (y + (b : Int) - (y + 8)).toNat = b - 8 by omega]

theorem bytesAt_of {vs : List UInt8} (h : ∀ b < vs.length, byteAt G s (y + (b : Nat)) = vs[b]?) :
    bytesAt G s y vs.length = some vs := by
  induction vs generalizing y with
  | nil => rfl
  | cons v vs ih =>
      have h₀ := h 0 (Nat.succ_pos _)
      rw [Nat.cast_zero, Int.add_zero] at h₀
      have hvs : bytesAt G s (y + 1) vs.length = some vs := by
        refine ih fun b hb => ?_
        have := h (b + 1) (Nat.succ_lt_succ hb)
        rw [Int.add_assoc, Int.add_comm 1]
        exact this
      rw [List.length_cons, bytesAt, h₀, hvs]
      rfl

/-- SUVM を通して読むバイトが `it` のものであれば、項目は `it` である。 -/
theorem Stored.item (h : Stored (byteAt G s) y it) : itemAt G s y = some it := by
  have hk := bytesAt_of fun b hb => h.key (by rw [wordBytes_length] at hb; exact hb)
  have hv := bytesAt_of fun b hb => h.val (by rw [wordBytes_length] at hb; exact hb)
  rw [wordBytes_length] at hk hv
  unfold itemAt
  rw [hk, hv]
  show some (Item.mk (ofWordBytes (wordBytes it.key)) (ofWordBytes (wordBytes it.val))) = _
  rw [ofWordBytes_wordBytes, ofWordBytes_wordBytes]

theorem Stored.itemAt_eq (h : s.Good cfg G) (hs : Stored (lastWrite s.state.trace) y it) : itemAt G s y = some it := by
  refine Stored.item fun b hb => ?_
  have hv := List.getElem?_eq_getElem (l := it.bytes) (i := b) (by rw [it.bytes_length]; exact hb)
  rw [hv]
  exact byteAt_eq h ((hs b hb).trans hv)

/-! ## コンストラクタ -/

theorem aligned_fits (h : y % 16 = 0) : y % pageSize + (16 : Nat) ≤ pageSize := by
  unfold pageSize
  omega

theorem populate_ok (hG : G.Correct) {k : Nat} (h : Ready cfg G s) (hc : Cursor s d a y) (hh : a.hintWrite = true)
    (hlink : ∀ j, a.prmPtr = some j → tagBit (s.state.epcArr j) = true) (hy : y % 16 = 0)
    (hp : InPool cfg y (k * 16)) (hr : ∀ q, RoomFor cfg (s.set d none) [q]) : ∃ s' a',
      populate cfg G d i k s = .ok s' ∧ s'.aptrs = s.aptrs.set d (some a') ∧ Ready cfg G s' ∧
      (∀ j, a'.prmPtr = some j → tagBit (s'.state.epcArr j) = true) ∧
      a'.linkedPage? = (if k = 0 then a.linkedPage? else some ((y + 16 * (k : Nat) - 16) / pageSize)) ∧
      (∀ j < k, Stored (lastWrite s'.state.trace) (y + 16 * (j : Nat)) ⟨UInt64.ofNat (i + j), 0⟩) ∧
      ∀ z, ¬ Range y (k * 16) z → lastWrite s'.state.trace z = lastWrite s.state.trace z := by
  induction k generalizing s a y i with
  | zero =>
      exact ⟨s, a, rfl, (aptrs_self hc.get).symm, h, hlink, rfl, fun j hj => absurd hj (Nat.not_lt_zero j), fun _ _ => rfl⟩
  | succ k ih =>
      have hlo := hp.lo
      have hhi := hp.hi
      obtain ⟨s₁, j, htouch, ht⟩ := hc.touch_ok hG h ⟨hlo, by push_cast at *; omega⟩ (hr _)
      have hst := ht.store (Item.bytes ⟨UInt64.ofNat i, 0⟩) hh (by rw [Item.bytes_length]; exact aligned_fits hy)
      have hmv := hst.edit (moveAptr (a.linkTo j) 16) hG hc.get rfl rfl rfl
      have hcur := hc.move (i := j) (n := 16) (by omega) (aligned_fits hy) (hmv.get hc.get)
      have hlink' : ∀ j', (moveAptr (a.linkTo j) 16).prmPtr = some j' → tagBit ((storeBytes s₁.state
          (cfg.slot j + (y % pageSize).toNat) y (Item.bytes ⟨UInt64.ofNat i, 0⟩)).epcArr j') = true := by
        rintro j' ⟨⟩
        rw [storeBytes_epcArr]
        exact ht.tagged hh
      obtain ⟨s₂, a₂, hrun, haptrs, hready, hlink₂, hpage, hstored, hout⟩ := ih (i := i + 1) hmv.ready hcur hh hlink' (by omega)
        (hp.sub (by omega) (by push_cast; omega)) (fun q => hmv.room (hr q))
      refine ⟨s₂, a₂, ?_, ?_, hready, hlink₂, ?_, ?_, ?_⟩
      · refine bind_ok_iff.mpr ⟨_, htouch, ?_⟩
        dsimp only
        rw [if_neg (by rw [hc.offset]; unfold pageSize; omega)]
        refine bind_ok_iff.mpr ⟨_, bind_ok_iff.mpr ⟨a.linkTo j, ?_, rfl⟩, ?_⟩
        · rw [linkTo_addr, hc.addr]
          exact hst.get hc.get
        · rw [linkTo_addr, hc.addr]
          exact hrun
      · rw [haptrs, hmv.aptrs, List.set_set]
      · rw [hpage, if_neg (Nat.succ_ne_zero k)]
        by_cases hk : k = 0
        · rw [if_pos hk, hk, show (moveAptr (a.linkTo j) 16).linkedPage? = some a.target from
            Aptr.linkTo_linkedPage? (a := a) (i := j), hc.target]
          congr 2
          omega
        · rw [if_neg hk]
          congr 2
          push_cast
          ring
      · intro j' hj'
        cases j' with
        | zero =>
            rw [Nat.cast_zero, Int.mul_zero, Int.add_zero, Nat.add_zero]
            refine Stored.congr (M := overlay (lastWrite s.state.trace) y (Item.bytes ⟨UInt64.ofNat i, 0⟩)) .of_overlay ?_
            intro z hz
            rw [hout z (fun hz' => by have := hz.2; have := hz'.1; push_cast at *; omega), hmv.last]
        | succ j' =>
            have := hstored j' (by omega)
            rw [show i + 1 + j' = i + (j' + 1) by omega,
              show y + 16 + 16 * (j' : Int) = y + 16 * ((j' + 1 : Nat) : Int) by push_cast; ring] at this
            exact this
      · intro z hz
        have hz₁ : ¬ Range (y + 16) (k * 16) z := fun hz' => hz ⟨by have := hz'.1; omega, by
          have := hz'.2
          push_cast at *
          omega⟩
        have hz₂ : ¬ Range y 16 z := fun hz' => hz ⟨hz'.1, by
          have := hz'.2
          push_cast at *
          omega⟩
        rw [hout z hz₁, hmv.last, overlay_outside (by rw [Item.bytes_length]; exact hz₂)]

/-- つながっていない二つの `Aptr` を末尾に加えても、つながりは変わらない。 -/
theorem linked_unlinked {b c : Option Aptr} (hb : b.bind Aptr.linkedPage? = none) (hc : c.bind Aptr.linkedPage? = none)
    (hs : s'.aptrs = s.aptrs ++ [b, c]) : s'.linked = s.linked := by
  have hlink := linked_append (s := s) s'.state (l := [b, c]) fun o ho => by
    simp only [List.mem_cons, List.not_mem_nil, or_false] at ho
    rcases ho with rfl | rfl
    · exact hb
    · exact hc
  rw [← hlink]
  unfold Sys.linked
  rw [hs]

/-- ブロックの先頭に構築した `Aptr`。 -/
def tableAptr (x : Int) (n : Nat) : Aptr := ⟨none, -1, 4096, false, x / pageSize, n * 16⟩

theorem Placed.construct (h : Placed cfg s x n) : Aptr.construct x (n * 16) = .ok (tableAptr x n) := by
  have hlo := h.range.lo
  have hst := h.start
  have hal := h.aligned
  have hpool : (cfg.poolPages : Int) ≤ 524288 := by exact_mod_cast cfg.poolPages_le
  have hbase : int32 (x / pageSize) = x / pageSize := by
    unfold pageSize at *
    exact int32_of_range (by omega) (by omega)
  unfold Aptr.construct tableAptr
  rw [hbase, if_pos (by unfold pageSize; omega), hal]
  rfl

theorem Placed.base_lt (h : Placed cfg s x n) : x / pageSize < 524288 := by
  have hst := h.start
  have hpool : (cfg.poolPages : Int) ≤ 524288 := by exact_mod_cast cfg.poolPages_le
  unfold pageSize at *
  omega

/-- `m_aptr` の値。一時オブジェクトの複写に `hint_write` を立てたもの。 -/
def storeAptr (x : Int) (n : Nat) : Aptr := ⟨none, -2, 8192, true, x / pageSize, n * 16⟩

theorem Placed.cursor {j : Nat} (h : Placed cfg s x n) (hs : s'.get j = .ok (storeAptr x n)) :
    Cursor s' j (storeAptr x n) x := by
  have hlo := h.range.lo
  have hal := h.aligned
  refine ⟨hs, ?_, ?_, fun _ => rfl⟩
  · show 0 ≤ x / (pageSize : Int)
    unfold pageSize
    omega
  · show (x / (pageSize : Int) + -2) * pageSize + 8192 = x
    unfold pageSize at *
    omega

/-- コンストラクタの繰り返しの前まで。 -/
theorem suvmNew_head (hG : G.Correct) (junk : Aptr) (h : Ready cfg G s) (hp : Placed cfg s x n) : ∃ s₁,
    (∀ s', populate cfg G s.aptrs.length 0 n s₁ = .ok s' → suvmNew cfg G s junk x n = .ok s') ∧ Ready cfg G s₁ ∧
      s₁.aptrs = s.aptrs ++ [some (storeAptr x n), none] ∧ s₁.state.trace = s.state.trace := by
  have hx := hp.construct
  have hnull : s.step cfg G id (.null junk) = .ok (Sys.push s (Aptr.null junk)) := rfl
  have hcons : (Sys.push s (Aptr.null junk)).step cfg G id (.construct x (n * 16)) =
      .ok ⟨s.state, s.aptrs ++ [some (Aptr.null junk), some (tableAptr x n)]⟩ := by
    refine bind_ok_iff.mpr ⟨_, hx, ?_⟩
    unfold Sys.push
    rw [List.append_assoc]
    rfl
  have hassign : Sys.step cfg G id ⟨s.state, s.aptrs ++ [some (Aptr.null junk), some (tableAptr x n)]⟩
      (.assign s.aptrs.length (s.aptrs.length + 1)) =
      .ok ⟨s.state, s.aptrs ++ [some (tableAptr x n).doCopy, some (tableAptr x n)]⟩ := by
    refine bind_ok_iff.mpr ⟨Aptr.null junk, Sys.get_ok_iff.mpr (by simp), bind_ok_iff.mpr ⟨_, rfl, ?_⟩⟩
    refine bind_ok_iff.mpr ⟨tableAptr x n, Sys.get_ok_iff.mpr (by simp [Sys.set]), ?_⟩
    unfold Sys.set
    dsimp only
    rw [List.set_set, set_last_two]
  have hg₀ : Ready cfg G (Sys.push s (Aptr.null junk)) :=
    h.step (.null junk) hG trivial hnull (push_linked rfl)
  have hg₁ := hg₀.step (.construct x (n * 16)) hG ⟨hp.range.lo, hp.start⟩ hcons
    ((linked_unlinked (s := s) rfl rfl rfl).trans (push_linked rfl).symm)
  have hg₂ := hg₁.step (.assign s.aptrs.length (s.aptrs.length + 1)) hG
    ⟨⟨Aptr.null junk, Sys.get_ok_iff.mpr (by simp)⟩, ⟨tableAptr x n, Sys.get_ok_iff.mpr (by simp)⟩⟩ hassign
    ((linked_unlinked (s := s) rfl rfl rfl).trans (linked_unlinked (s := s) rfl rfl rfl).symm)
  have hget : Sys.get ⟨s.state, s.aptrs ++ [some (tableAptr x n).doCopy, some (tableAptr x n)]⟩ (s.aptrs.length + 1) =
      .ok (tableAptr x n) := Sys.get_ok_iff.mpr (by simp)
  obtain ⟨s₄, hdestroy, hg₄, haptrs, htrace⟩ := destroy_ok hG hg₂ hget
  rw [set_last_one] at haptrs
  have hget₄ : s₄.get s.aptrs.length = .ok (tableAptr x n).doCopy := Sys.get_ok_iff.mpr (by rw [haptrs]; simp)
  have hhint : s₄.step cfg G id (.hint s.aptrs.length true) = .ok (s₄.set s.aptrs.length (some (storeAptr x n))) :=
    bind_ok_iff.mpr ⟨_, hget₄, rfl⟩
  refine ⟨s₄.set s.aptrs.length (some (storeAptr x n)), ?_, ?_, ?_, htrace⟩
  · intro s' hs'
    exact bind_ok_iff.mpr ⟨_, hnull, bind_ok_iff.mpr ⟨_, hcons, bind_ok_iff.mpr ⟨_, hassign,
      bind_ok_iff.mpr ⟨s₄, hdestroy, bind_ok_iff.mpr ⟨_, hhint, hs'⟩⟩⟩⟩⟩
  · exact hg₄.edit hG hget₄ rfl rfl rfl
  · show s₄.aptrs.set s.aptrs.length _ = _
    rw [haptrs, set_last_two]

/-- 表が `t` である状態。一時オブジェクトをつなぐ余地がある。 -/
structure Serving (cfg : Config) (G : Gcm) (x : Int) (n : Nat) (t : Nat → Item) (s : Sys) : Prop where
  ready : Ready cfg G s
  room : ∀ q, RoomFor cfg s [q]
  stored : ∀ i < n, Stored (lastWrite s.state.trace) (x + 16 * (i : Nat)) (t i)

theorem suvmNew_ok (hG : G.Correct) (junk : Aptr) (h : Ready cfg G s) (hp : Placed cfg s x n) : ∃ s',
    suvmNew cfg G s junk x n = .ok s' ∧ Serving cfg G x n (fun i => ⟨UInt64.ofNat i, 0⟩) s' ∧
      ∃ a, s'.aptrs = s.aptrs ++ [some a, none] ∧ (∀ j, a.prmPtr = some j → tagBit (s'.state.epcArr j) = true) ∧
        a.linkedPage? = if n = 0 then none else some ((x + 16 * (n : Nat) - 16) / pageSize) := by
  obtain ⟨s₁, hnew, hr₁, haptrs₁, htrace₁⟩ := suvmNew_head hG junk h hp
  have hget : s₁.get s.aptrs.length = .ok (storeAptr x n) := Sys.get_ok_iff.mpr (by rw [haptrs₁]; simp)
  have hnone : (s₁.set s.aptrs.length none).linked = s.linked := by
    refine linked_unlinked (b := none) (c := none) rfl rfl ?_
    unfold Sys.set
    dsimp only
    rw [haptrs₁, set_last_two]
  have hroom (p q : Int) : RoomFor cfg (s₁.set s.aptrs.length none) [p, q] := (hp.room p q).congr hnone
  obtain ⟨s₂, a₂, hrun, haptrs₂, hr₂, hlink₂, hpage, hstored, -⟩ := populate_ok (i := 0) hG hr₁ (hp.cursor hget) rfl
    (fun j hj => nomatch hj) (by have := hp.aligned; unfold pageSize at this; omega) hp.range
    (fun q => (hroom q q).sublist (List.sublist_cons_self q [q]))
  refine ⟨s₂, hnew s₂ hrun, ⟨hr₂, ?_, ?_⟩, a₂, by rw [haptrs₂, haptrs₁, set_last_two], hlink₂, hpage⟩
  · intro q
    -- `m_aptr` は最後の項目のページにつながったままである。
    have hset : RoomFor cfg (s₁.set s.aptrs.length (some a₂)) [q] := by
      rw [roomFor_set hget, Option.bind_some]
      cases hl : a₂.linkedPage? with
      | none => exact (hroom q q).sublist (List.sublist_cons_self q [q])
      | some p => exact hroom p q
    refine hset.congr ?_
    unfold Sys.linked Sys.set
    rw [haptrs₂]
  · intro i hi
    have := hstored i hi
    rwa [Nat.zero_add] at this

/-! ## 要求 -/

/-- `key` を読み、`val` を読んで書く。 -/
theorem bump_good {p : Int} {o : Nat} {v : UInt64} (h : s.Good cfg G) (hg : s.state.l1.get p = some ⟨p, i⟩)
    (ht : tagBit (s.state.epcArr i) = true) (ho : o + 16 ≤ pageSize) :
    let t₁ := (loadBytes s.state (cfg.slot i + o) (p * pageSize + o) 8).1
    let t₂ := (loadBytes t₁ (cfg.slot i + o + 8) (p * pageSize + o + 8) 8).1
    let t := storeBytes t₂ (cfg.slot i + o + 8) (p * pageSize + o + 8) (wordBytes v)
    Sys.Good cfg G { s with state := t } ∧
      lastWrite t.trace = overlay (lastWrite s.state.trace) (p * pageSize + o + 8) (wordBytes v) ∧
      Grown (Range (p * pageSize + o) 16) s.state.trace t.trace := by
  have hy : p * (pageSize : Int) + ((o + 8 : Nat) : Int) = p * pageSize + o + 8 := by push_cast; ring
  obtain ⟨hgood₁, hlast₁, hacc₁⟩ := loadBytes_good (o := o) (n := 8) h hg (by omega)
  obtain ⟨e₁, he₁⟩ := loadBytes_state (y := p * pageSize + o) s.state (cfg.slot i + o) 8
  have hg₁ : (loadBytes s.state (cfg.slot i + o) (p * pageSize + o) 8).1.l1.get p = some ⟨p, i⟩ := by
    rw [he₁]
    exact hg
  obtain ⟨hgood₂, hlast₂, hacc₂⟩ := loadBytes_good (o := o + 8) (n := 8) hgood₁ hg₁ (by omega)
  rw [hy, ← Nat.add_assoc] at hgood₂ hlast₂ hacc₂
  obtain ⟨e₂, he₂⟩ := loadBytes_state (y := p * pageSize + o + 8)
    (loadBytes s.state (cfg.slot i + o) (p * pageSize + o) 8).1 (cfg.slot i + o + 8) 8
  have hg₂ : (loadBytes (loadBytes s.state (cfg.slot i + o) (p * pageSize + o) 8).1 (cfg.slot i + o + 8)
      (p * pageSize + o + 8) 8).1.l1.get p = some ⟨p, i⟩ := by
    rw [he₂]
    exact hg₁
  have ht₂ : tagBit ((loadBytes (loadBytes s.state (cfg.slot i + o) (p * pageSize + o) 8).1 (cfg.slot i + o + 8)
      (p * pageSize + o + 8) 8).1.epcArr i) = true := by
    rw [he₂, he₁]
    exact ht
  obtain ⟨hgood₃, hlast₃, hacc₃⟩ := storeBytes_good (wordBytes v) (o := o + 8) hgood₂ hg₂ ht₂
    (by rw [wordBytes_length]; omega)
  rw [hy, ← Nat.add_assoc] at hgood₃ hlast₃ hacc₃
  rw [wordBytes_length] at hacc₃
  -- `val` は十六バイトの後ろの半分である。
  have hback {x : Int} (hx : Range (p * pageSize + o + 8) 8 x) : Range (p * pageSize + o) 16 x :=
    hx.sub (by omega) (by omega)
  refine ⟨hgood₃, ?_, ?_⟩
  · rw [hlast₃]
    dsimp only
    rw [hlast₂, hlast₁]
  · exact ((hacc₁.mono fun _ hx => hx.take (by omega)).trans
      (hacc₂.mono fun _ => hback)).trans (hacc₃.mono fun _ => hback)

/-- 位置 `loc` まで進めた一時オブジェクト。 -/
def probeAptr (x : Int) (n loc : Nat) : Aptr := ⟨none, -1, 4096 + loc * 16, true, x / pageSize, n * 16⟩

theorem probe_ok (hG : G.Correct) {s₀ : Sys} {loc : Nat} (h : Ready cfg G s) (hp : Placed cfg s₀ x n) (hloc : loc < n) :
    ∃ s₁ s₂ s₃, s.step cfg G id (.construct x (n * 16)) = .ok s₁ ∧
      s₁.step cfg G id (.hint s.aptrs.length true) = .ok s₂ ∧ advance s₂ s.aptrs.length (loc * 16) = .ok s₃ ∧
      Ready cfg G s₃ ∧ s₃.state = s.state ∧ s₃.aptrs = s.aptrs ++ [some (probeAptr x n loc)] ∧
      Cursor s₃ s.aptrs.length (probeAptr x n loc) (x + 16 * (loc : Nat)) := by
  have hsmall := hp.small
  have hlo := hp.range.lo
  have hal := hp.aligned
  have hpush : Ready cfg G (Sys.push s (tableAptr x n)) := h.push hG rfl hp.base_lt
  let b : Aptr := { tableAptr x n with hintWrite := true }
  have hget : (Sys.push s (tableAptr x n)).get s.aptrs.length = .ok (tableAptr x n) := push_get
  have hr₂ : Ready cfg G ((Sys.push s (tableAptr x n)).set s.aptrs.length (some b)) := hpush.edit hG hget rfl rfl rfl
  have hget₂ : ((Sys.push s (tableAptr x n)).set s.aptrs.length (some b)).get s.aptrs.length = .ok b :=
    Sys.get_ok_iff.mpr (get_of_aptrs (o := some b) hget rfl)
  have hmove : moveAptr b (loc * 16) = probeAptr x n loc := by
    unfold moveAptr probeAptr
    rw [show b.offset = 4096 from rfl, int32_of_range (by omega) (by omega)]
    rfl
  have hr₃ := hr₂.edit (b := probeAptr x n loc) hG hget₂ rfl rfl rfl
  have hget₃ : Sys.get (Sys.set ((Sys.push s (tableAptr x n)).set s.aptrs.length (some b)) s.aptrs.length
      (some (probeAptr x n loc))) s.aptrs.length = .ok (probeAptr x n loc) :=
    Sys.get_ok_iff.mpr (get_of_aptrs (o := some (probeAptr x n loc)) hget₂ rfl)
  refine ⟨_, _, _, bind_ok_iff.mpr ⟨_, hp.construct, rfl⟩, bind_ok_iff.mpr ⟨_, hget, rfl⟩,
    bind_ok_iff.mpr ⟨b, hget₂, by rw [hmove]; rfl⟩, hr₃, rfl, ?_, hget₃, ?_, ?_, ?_⟩
  · unfold Sys.set Sys.push
    dsimp only
    rw [List.set_set, List.set_append_right _ _ (Nat.le_refl _), Nat.sub_self]
    rfl
  · show 0 ≤ x / (pageSize : Int)
    unfold pageSize
    omega
  · show (x / (pageSize : Int) + -1) * pageSize + (4096 + (loc : Int) * 16) = _
    unfold pageSize at *
    omega
  · intro _
    show isValid (4096 + (loc : Int) * 16) = false
    rw [← Bool.not_eq_true, isValid_iff]
    unfold pageSize
    omega

theorem Touched.word {w : UInt64} {k j : Nat} {t : State} {z : Int} (h : Touched cfg G s d a y s' j)
    (hk : y % pageSize + k + 8 ≤ pageSize) (ht : t.epc = s'.state.epc)
    (hw : ∀ b < 8, lastWrite s.state.trace (y + k + (b : Nat)) = (wordBytes w)[b]?) :
    ofWordBytes (loadBytes t (cfg.slot j + (y % pageSize).toNat + k) z 8).2 = w := by
  have hbytes : (loadBytes t (cfg.slot j + (y % pageSize).toNat + k) z 8).2 = wordBytes w := by
    rw [loadBytes_bytes]
    apply List.ext_getElem? fun b => ?_
    by_cases hb : b < 8
    · have hv : (wordBytes w)[b]? = some (wordBytes w)[b] := List.getElem?_eq_getElem (by rw [wordBytes_length]; exact hb)
      rw [List.getElem?_map, List.getElem?_range hb, Option.map_some, hv, ht, Nat.add_assoc]
      congr 1
      refine h.byte (k := k + b) (by push_cast; omega) ?_
      rw [← hv, ← hw b hb]
      congr 1
      push_cast
      ring
    · rw [List.getElem?_eq_none (by simp; omega), List.getElem?_eq_none (by rw [wordBytes_length]; omega)]
  rw [hbytes, ofWordBytes_wordBytes]

/-- 残っている `Aptr` は元からあり、つながっている枠の変更の印は残る。 -/
structure Steady (s s' : Sys) : Prop where
  aptrs : ∀ b, some b ∈ s'.aptrs → some b ∈ s.aptrs
  tags : ∀ b j, some b ∈ s.aptrs → b.prmPtr = some j → tagBit (s.state.epcArr j) = true →
    tagBit (s'.state.epcArr j) = true

/-- 末尾の `Aptr` を通した一度の `deref`。 -/
theorem Steady.of_touched {s₃ s₄ : Sys} {o : Option Aptr} (h : Ready cfg G s₃) (hst : s₃.state = s.state)
    (haptrs : s₃.aptrs = s.aptrs ++ [o]) (ht : Touched cfg G s₃ s.aptrs.length a y s₄ i)
    (hs : s'.aptrs = s₄.aptrs.set s.aptrs.length none) (hE : s'.state.epcArr = s₄.state.epcArr) : Steady s s' := by
  have h₄ : s₄.aptrs = s.aptrs ++ [some (a.linkTo i)] := by
    rw [ht.aptrs, haptrs, List.set_append_right _ _ (Nat.le_refl _), Nat.sub_self]
    rfl
  have h' : s'.aptrs = s.aptrs ++ [none] := by
    rw [hs, h₄, List.set_append_right _ _ (Nat.le_refl _), Nat.sub_self]
    rfl
  refine ⟨fun b hb => ?_, fun b j hb hj htag => ?_⟩
  · rw [h'] at hb
    rcases List.mem_append.mp hb with hb | hb
    · exact hb
    · cases List.mem_singleton.mp hb
  · have hb₃ : some b ∈ s₃.aptrs := by
      rw [haptrs]
      exact List.mem_append_left _ hb
    have hb₄ : some b ∈ s₄.aptrs := by
      rw [h₄]
      exact List.mem_append_left _ hb
    have hz := ht.ready.good.pinned.refCount_ne_zero ht.ready.within hb₄ hj
    rw [hE]
    exact ht.kept _ _ (h.good.links b j hb₃ hj) hz (by rw [hst]; exact htag)

theorem suvmGetLoop_ok (hG : G.Correct) {s₀ : Sys} {loc k : Nat} (h : Ready cfg G s) (hp : Placed cfg s₀ x n)
    (hr : ∀ q, RoomFor cfg s [q]) (hloc : loc < n) (hs : Stored (lastWrite s.state.trace) (x + 16 * (loc : Nat)) it) :
    ∃ s', suvmGetLoop cfg G x n it.key (k + 1) loc s = .ok s' ∧ Returned cfg G s (Range (x + 16 * (loc : Nat)) 16)
      (overlay (lastWrite s.state.trace) (x + 16 * (loc : Nat) + 8) (wordBytes (it.val + 1))) s' ∧ Steady s s' := by
  obtain ⟨s₁, s₂, s₃, hcons, hhint, hadv, hr₃, hst, haptrs, hc⟩ := probe_ok hG h hp hloc
  have hal : (x + 16 * (loc : Int)) % 16 = 0 := by
    have := hp.aligned
    unfold pageSize at this
    omega
  have hfit := aligned_fits hal
  have hin : InPool cfg (x + 16 * (loc : Int)) 1 := hp.range.sub (by omega) (by push_cast; omega)
  obtain ⟨s₄, j, htouch, ht⟩ := hc.touch_ok hG hr₃ hin (room_push (hr _) haptrs)
  generalize hy : x + 16 * (loc : Int) = y at *
  rw [← hst] at hs
  have hkey : ofWordBytes (loadBytes s₄.state (cfg.slot j + (y % pageSize).toNat) y 8).2 = it.key := by
    have hword := Touched.word (w := it.key) (k := 0) (t := s₄.state) (z := y) ht (by push_cast at *; omega) rfl
      fun b hb => by
        rw [Nat.cast_zero, Int.add_zero]
        exact hs.key hb
    rwa [Nat.add_zero] at hword
  obtain ⟨e, he⟩ := loadBytes_state (y := y) s₄.state (cfg.slot j + (y % pageSize).toNat) 8
  have hval : ofWordBytes (loadBytes (loadBytes s₄.state (cfg.slot j + (y % pageSize).toNat) y 8).1
      (cfg.slot j + (y % pageSize).toNat + 8) (y + 8) 8).2 = it.val := by
    refine Touched.word (k := 8) ht (by push_cast at *; omega) (by rw [he]) fun b hb => ?_
    rw [Nat.cast_ofNat]
    exact hs.val hb
  have ho : (y % (pageSize : Int)).toNat + 16 ≤ pageSize := by
    unfold pageSize at *
    omega
  obtain ⟨hgood, hlast, hacc⟩ := bump_good (v := it.val + 1) ht.ready.good ht.resident (ht.tagged rfl) ho
  rw [page_split] at hgood hlast hacc
  rw [ht.last] at hlast
  have hpass := ht.passed hgood hlast hacc
  rw [hst] at hpass
  obtain ⟨s₅, hdestroy, hret⟩ := hpass.leave hG haptrs hst
  have hsteady : Steady s s₅ := by
    cases (destroy_eq hpass.ready.good.pinned (hpass.get hc.get)).symm.trans hdestroy
    refine .of_touched hr₃ hst haptrs ht rfl ?_
    obtain ⟨e', he'⟩ := loadBytes_state (y := y + 8) (loadBytes s₄.state (cfg.slot j + (y % pageSize).toNat) y 8).1
      (cfg.slot j + (y % pageSize).toNat + 8) 8
    show (storeBytes _ _ _ _).epcArr = _
    rw [storeBytes_epcArr, he', he]
  refine ⟨s₅, ?_, hret, hsteady⟩
  unfold suvmGetLoop
  refine bind_ok_iff.mpr ⟨s₁, hcons, bind_ok_iff.mpr ⟨s₂, hhint, bind_ok_iff.mpr ⟨s₃, hadv, bind_ok_iff.mpr
    ⟨_, htouch, ?_⟩⟩⟩⟩
  dsimp only
  rw [linkTo_addr, hc.addr, if_pos hkey, hval]
  exact hdestroy

theorem Serving.get (hG : G.Correct) {s₀ : Sys} {t : Nat → Item} {key : UInt64} (h : Serving cfg G x n t s)
    (hp : Placed cfg s₀ x n) (hk : key.toNat < n) (ht : (t key.toNat).key = key) : ∃ s',
      suvmGet cfg G s x n key = .ok s' ∧
      Serving cfg G x n (Function.update t key.toNat ⟨key, (t key.toNat).val + 1⟩) s' ∧ Steady s s' := by
  obtain ⟨k, rfl⟩ : ∃ k, n = k + 1 := ⟨n - 1, by omega⟩
  have hs := h.stored _ hk
  obtain ⟨s', hrun, hret, hsteady⟩ := suvmGetLoop_ok (k := k) hG h.ready hp h.room hk hs
  rw [ht] at hrun
  refine ⟨s', hrun, ⟨hret.ready, fun q => (h.room q).congr hret.linked, ?_⟩, hsteady⟩
  intro i hi
  rw [hret.last]
  by_cases heq : i = key.toNat
  · subst heq
    have := hs.overlay_val (v := (t key.toNat).val + 1)
    rw [ht] at this
    rwa [Function.update_self]
  · rw [Function.update_of_ne heq]
    refine (h.stored i hi).congr fun z hz => overlay_outside fun hx => ?_
    rw [wordBytes_length] at hx
    have h₁ := hz.1
    have h₂ := hz.2
    have h₃ := hx.1
    have h₄ := hx.2
    push_cast at *
    omega

end Eleos.Server
