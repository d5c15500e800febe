import Eleos.Face.Lemmas.Puts
import Eleos.Libc.Lemmas.Shims

/-!
# ヒストグラムを置く領域

信頼側の `memsys5Malloc` と `memmove_aptr_reg`、非信頼側の `my_malloc` と `memcpy` は、どちらも置いた値を保つ。
-/

namespace Eleos.Face

open Pager Libc

/-! ## 非信頼側 -/

namespace Untrusted

/-- ポインタ `x` の指す領域の中身は `u` である。 -/
def Holds (heap : List (List UInt8)) (x : Nat) (u : List UInt8) : Prop := heap[x]? = some u

theorem storage : Storage store (fun _ _ => True) Holds where
  run := by
    intro n heap val hval _
    refine ⟨heap ++ [val], heap.length, ?_, trivial, ?_, ?_⟩
    · unfold store
      dsimp only
      rw [List.set_append_right _ _ (Nat.le_refl _), Nat.sub_self]
      rfl
    · exact List.getElem?_concat_length
    · intro x u hx
      have hlt := (List.getElem?_eq_some_iff.mp hx).1
      exact (List.getElem?_append_left hlt).trans hx

end Untrusted

/-! ## 信頼側 -/

namespace Trusted

variable {cfg : Config} {G : Gcm} {malloc : Nat → Int} {s : Sys} {w : World} {x : Int} {u hist : List UInt8} {N : Nat}

/-- 信頼側の領域の状態。あと `n` 個のブロックが返される。 -/
structure Standing (cfg : Config) (G : Gcm) (N n : Nat) (w : World) : Prop where
  ready : Ready cfg G w.sys
  room : ∀ q, RoomFor cfg w.sys [q]
  left : w.calls + n ≤ N

/-- 番地 `x` のブロックに最後に書き込んだ内容は `u` である。 -/
structure Holds (malloc : Nat → Int) (w : World) (x : Int) (u : List UInt8) : Prop where
  block : ∃ k < w.calls, x = malloc k
  size : u.length = histogramBytes
  bytes : ∀ b < histogramBytes, lastWrite w.sys.state.trace (x + (b : Nat)) = u[b]?

theorem start_of (h : InPool cfg x histogramBytes) : 0 ≤ x ∧ x < cfg.poolPages * pageSize := by
  have h₁ := h.lo
  have h₂ := h.hi
  unfold histogramBytes at h₂
  exact ⟨h₁, by push_cast at h₂; omega⟩

/-- 置いたブロックの中身だけが変わる。 -/
theorem store_ok (hG : G.Correct) (hr : Ready cfg G w.sys) (hroom : ∀ q, RoomFor cfg w.sys [q])
    (hx : InPool cfg (malloc w.calls) histogramBytes) (hu : u.length = histogramBytes) : ∃ s,
      store cfg G malloc w u = .ok (⟨s, w.calls + 1⟩, malloc w.calls) ∧ Ready cfg G s ∧ s.linked = w.sys.linked ∧
        lastWrite s.state.trace = overlay (lastWrite w.sys.state.trace) (malloc w.calls) u := by
  obtain ⟨a, hcons, hr₁, hnone, hc⟩ := construct_ok (n := histogramBytes) hG hr (start_of hx)
  obtain ⟨-, hoff⟩ := construct_aptr hcons
  have haddr := hc.addr
  have hlink : (Sys.push w.sys a).linked = w.sys.linked := push_linked hnone
  have hw : Writable cfg (Sys.push w.sys a) w.sys.aptrs.length a u.length := by
    refine ⟨hc.get, hc.base, ?_, ?_, by rw [haddr, hu]; exact hx, by rw [hu]; decide, fun k _ => (hroom _).congr hlink⟩
    · rw [hoff]
      unfold pageSize
      omega
    · rw [hoff]
      unfold pageSize
      omega
  obtain ⟨s₂, hmove, hret, haptrs⟩ := memmoveAptrReg_ok hG hr₁ hw (Or.inr (by
    rw [hoff]
    unfold pageSize
    omega))
  have haptrs₂ : s₂.aptrs = w.sys.aptrs ++ [some a, none] := by
    rw [haptrs]
    exact List.append_assoc _ _ _
  have hget : s₂.get w.sys.aptrs.length = .ok a := Sys.get_ok_iff.mpr (by rw [haptrs₂]; simp)
  obtain ⟨s₃, hdestroy, hr₃, haptrs₃, htrace⟩ := destroy_ok hG hret.ready hget
  rw [haptrs₂, set_last_two] at haptrs₃
  refine ⟨s₃, bind_ok_iff.mpr ⟨_, hcons, bind_ok_iff.mpr ⟨s₂, hmove, bind_ok_iff.mpr ⟨s₃, hdestroy, rfl⟩⟩⟩, hr₃, ?_, ?_⟩
  · rw [← linked_two (s := w.sys) s₃.state]
    unfold Sys.linked
    rw [haptrs₃]
  · rw [htrace, hret.last, haddr]
    rfl

theorem storage (hG : G.Correct) (hb : Blocks cfg malloc N) :
    Storage (store cfg G malloc) (Standing cfg G N) (Holds malloc) where
  run := by
    intro n w u hu hs
    have hlt : w.calls < N := by
      have := hs.left
      omega
    obtain ⟨s, hstore, hr, hlink, hlast⟩ := store_ok hG hs.ready hs.room (hb.range _ hlt) hu
    refine ⟨_, _, hstore, ⟨hr, fun q => (hs.room q).congr hlink, ?_⟩, ⟨⟨w.calls, Nat.lt_succ_self _, rfl⟩, hu, ?_⟩, ?_⟩
    · have := hs.left
      show w.calls + 1 + n ≤ N
      omega
    · intro b hb'
      show lastWrite s.state.trace _ = _
      rw [hlast, overlay_inside (by rw [hu]; exact hb')]
    · rintro x v ⟨⟨k, hk, rfl⟩, hsize, hbytes⟩
      refine ⟨⟨k, Nat.lt_succ_of_lt hk, rfl⟩, hsize, fun b hb' => ?_⟩
      have hfresh := hb.fresh k (Nat.lt_trans hk hlt) w.calls hlt (Nat.ne_of_lt hk)
      show lastWrite s.state.trace _ = _
      rw [hlast, overlay_outside (by rw [hu]; unfold Range; omega)]
      exact hbytes b hb'

/-- 置いた値を、新しい `Aptr` を通して読む。 -/
theorem load_ok (hG : G.Correct) (hr : Ready cfg G s) (hroom : ∀ q, RoomFor cfg s [q]) (hx : InPool cfg x histogramBytes)
    (hu : u.length = histogramBytes) (hbytes : ∀ b < histogramBytes, lastWrite s.state.trace (x + (b : Nat)) = u[b]?)
    (hhist : hist.length = histogramBytes) : ∃ s', load cfg G s hist x = .ok (s', u) ∧
      Returned cfg G s (Range x histogramBytes) (lastWrite s.state.trace) s' := by
  obtain ⟨a, hcons, hr₁, hnone, hc⟩ := construct_ok (n := histogramBytes) hG hr (start_of hx)
  have haddr := hc.addr
  have haptrs : (Sys.push s a).aptrs = s.aptrs ++ [some a] := rfl
  have hread : Readable cfg (Sys.push s a) s.aptrs.length a hist.length :=
    ⟨hc.get, hc.base, hc.biased, by rw [haddr, hhist]; exact hx, by rw [hhist]; decide,
      fun k _ => room_push (hroom _) haptrs⟩
  obtain ⟨s₂, vs, a', hmove, hpass, -, hlen, hdel⟩ := memmoveRegAptr_ok hG hr₁ hread
  have hst : (Sys.push s a).state = s.state := rfl
  rw [haddr, hhist, hst] at hpass
  obtain ⟨s₃, hdestroy, hret⟩ := hpass.leave hG haptrs hst
  have hvs : vs = u := by
    refine List.ext_getElem? fun b => ?_
    by_cases hb : b < histogramBytes
    · have hv : u[b]? = some _ := List.getElem?_eq_getElem (by rw [hu]; exact hb)
      rw [hv]
      refine hdel b _ (by rw [hhist]; exact hb) ?_
      rw [haddr, hst, hbytes b hb, hv]
    · rw [List.getElem?_eq_none (by rw [hlen, hhist]; omega), List.getElem?_eq_none (by rw [hu]; omega)]
  rw [hvs] at hmove
  exact ⟨s₃, bind_ok_iff.mpr ⟨_, hcons, bind_ok_iff.mpr ⟨_, hmove, bind_ok_iff.mpr ⟨s₃, hdestroy, rfl⟩⟩⟩, hret⟩

end Trusted

end Eleos.Face
