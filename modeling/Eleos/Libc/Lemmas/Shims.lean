import Eleos.Libc.Lemmas.Bytewise
import Eleos.Libc.Lemmas.Memmove

/-!
# 一バイトずつ進む関数の呼び出し

局所の `Aptr` を構築し、繰り返しを終え、破棄して戻るまで。
-/

namespace Eleos.Libc

open Pager

variable {cfg : Config} {G : Gcm} {s s' : Sys} {a a' b b' : Aptr} {d e n : Nat} {y z : Int}
  {R : Int → Prop} {M : Int → Option UInt8}

/-! ## 局所の `Aptr` が一つのもの -/

/-- 末尾の `Aptr` だけを使う計算のあと、それを破棄して戻る。 -/
theorem Passed.leave {s₁ : Sys} (hG : G.Correct) (hs : s₁.aptrs = s.aptrs ++ [some a]) (hst : s₁.state = s.state)
    (h : Passed cfg G s₁ s.aptrs.length R M s' a') : ∃ s₃, s'.step cfg G id (.destroy s.aptrs.length) = .ok s₃ ∧
      Returned cfg G s R M s₃ := by
  have haptrs : s'.aptrs = s.aptrs ++ [some a'] := by
    rw [h.aptrs, hs, List.set_append_right _ _ (Nat.le_refl _), Nat.sub_self]
    rfl
  obtain ⟨s₃, hstep, hr, hlink, htrace, -⟩ := Libc.leave hG h.ready haptrs
  refine ⟨s₃, hstep, ⟨hr, hlink, ?_, ?_⟩⟩
  · rw [htrace]
    exact h.last
  · rw [htrace, ← hst]
    exact h.trace

theorem memsetAptr_ok {c : Int} (hG : G.Correct) (h : Ready cfg G s) (hr : OneRange cfg s y n) : ∃ s',
    memsetAptr cfg G s y c n = .ok s' ∧
      Returned cfg G s (Range y n) (overlay (lastWrite s.state.trace) y (List.replicate n (UInt8.ofInt c))) s' := by
  unfold memsetAptr
  by_cases hn : n ≠ 0
  · rw [if_pos hn]
    obtain ⟨a, hcons, hr₁, -, hc₁⟩ := construct_ok (n := n) hG h ⟨hr.range.lo, hr.start⟩
    obtain ⟨s₂, hhint, hr₂, hst, haptrs, hc₂⟩ := hint_ok (w := true) hG hr₁ hc₁
    have haptrs₂ : s₂.aptrs = s.aptrs ++ [some { a with hintWrite := true }] := by
      rw [haptrs]
      unfold Sys.push
      rw [List.set_append_right _ _ (Nat.le_refl _), Nat.sub_self]
      rfl
    obtain ⟨s₃, a₃, hloop, hpass⟩ := memsetLoop_ok (c := UInt8.ofInt c) hG hr₂ hc₂ rfl hr.range
      fun k hk => room_push (hr.room k hk) haptrs₂
    have hst₂ : s₂.state = s.state := hst
    rw [hst₂] at hpass
    obtain ⟨s₄, hdestroy, hret⟩ := hpass.leave hG haptrs₂ hst₂
    exact ⟨s₄, bind_ok_iff.mpr ⟨_, hcons, bind_ok_iff.mpr ⟨s₂, hhint, bind_ok_iff.mpr ⟨s₃, hloop, hdestroy⟩⟩⟩, hret⟩
  · rw [if_neg hn]
    obtain rfl := not_not.mp hn
    rw [List.replicate_zero, overlay_nil]
    exact ⟨s, rfl, .refl h⟩

theorem memcmpRegAptr_ok {us : List UInt8} (hG : G.Correct) (h : Ready cfg G s) (hr : OneRange cfg s y us.length) :
    ∃ s' r, memcmpRegAptr cfg G s us y = .ok (s', r) ∧
      Returned cfg G s (Range y us.length) (lastWrite s.state.trace) s' ∧
      ∀ u w : Nat → UInt8, (∀ k < us.length, us[k]? = some (u k)) →
        (∀ k < us.length, lastWrite s.state.trace (y + (k : Nat)) = some (w k)) → Compares us.length u w r := by
  obtain ⟨a, hcons, hr₁, -, hc₁⟩ := construct_ok (n := us.length) hG h ⟨hr.range.lo, hr.start⟩
  obtain ⟨s₂, r, a₂, hloop, hpass, hcmp⟩ := memcmpRegAptrLoop_ok hG hr₁ hc₁ hr.range
    fun k hk => room_push (hr.room k hk) rfl
  have haptrs : (Sys.push s a).aptrs = s.aptrs ++ [some a] := rfl
  obtain ⟨s₃, hdestroy, hret⟩ := hpass.leave hG haptrs rfl
  exact ⟨s₃, r, bind_ok_iff.mpr ⟨_, hcons, bind_ok_iff.mpr ⟨_, hloop, bind_ok_iff.mpr ⟨s₃, hdestroy, rfl⟩⟩⟩, hret, hcmp⟩

/-! ## 局所の `Aptr` が二つのもの -/

theorem set_last_two {α : Type} (l : List α) (u v u' : α) : (l ++ [u, v]).set l.length u' = l ++ [u', v] := by
  rw [List.set_append_right _ _ (Nat.le_refl _), Nat.sub_self]
  rfl

theorem set_last_one {α : Type} (l : List α) (u v v' : α) : (l ++ [u, v]).set (l.length + 1) v' = l ++ [u, v'] := by
  rw [List.set_append_right _ _ (Nat.le_add_right _ 1), Nat.add_sub_cancel_left]
  rfl

theorem linked_two (st : State) : Sys.linked ⟨st, s.aptrs ++ [none, none]⟩ = s.linked := by
  refine linked_append st fun o ho => ?_
  simp only [List.mem_cons, List.not_mem_nil, or_false, or_self] at ho
  rw [ho]
  rfl

theorem pairRoom_push {ps : List Int} {o o' : Option Aptr} (hr : RoomFor cfg s ps) (hs : s'.aptrs = s.aptrs ++ [o, o']) :
    PairRoom cfg s' s.aptrs.length (s.aptrs.length + 1) ps := by
  refine RoomFor.congr hr ?_
  rw [← linked_two (s := s) s'.state]
  unfold Sys.linked Sys.set
  dsimp only
  rw [hs, set_last_two, set_last_one]

/-- 二つの `Aptr` を構築した状態。 -/
theorem constructTwo_ok (hG : G.Correct) (h : Ready cfg G s) (hr : TwoRanges cfg s y z n) : ∃ a b s₁ s₂,
    s.step cfg G id (.construct y n) = .ok s₁ ∧ s₁.step cfg G id (.construct z n) = .ok s₂ ∧ s₂.state = s.state ∧
      s₂.aptrs = s.aptrs ++ [some a, some b] ∧ Tandem cfg G s₂ s.aptrs.length (s.aptrs.length + 1) a b y z n := by
  obtain ⟨a, hcons, hr₁, hla, hc₁⟩ := construct_ok (n := n) hG h ⟨hr.left.lo, hr.start.1⟩
  obtain ⟨b, hcons', hr₂, hlb, hc₂⟩ := construct_ok (n := n) hG hr₁ ⟨hr.right.lo, hr.start.2⟩
  have hlen : (Sys.push s a).aptrs.length = s.aptrs.length + 1 := List.length_append
  have haptrs : (Sys.push (Sys.push s a) b).aptrs = s.aptrs ++ [some a, some b] := List.append_assoc _ _ _
  have hca : Cursor (Sys.push (Sys.push s a) b) s.aptrs.length a y :=
    ⟨Sys.get_ok_iff.mpr (by rw [haptrs]; simp), hc₁.base, hc₁.addr, hc₁.biased⟩
  have hnone {c : Aptr} (hl : c.prmPtr = none) : c.linkedPage? = none := by
    rw [Aptr.linkedPage?, hl]
    rfl
  have hroom {j k : Nat} (hj : j < n) (hk : k < n) (h₁ : j ≤ k + 1) (h₂ : k ≤ j + 1) :
      PairRoom cfg (Sys.push (Sys.push s a) b) s.aptrs.length (s.aptrs.length + 1)
        [(y + (j : Nat)) / pageSize, (z + (k : Nat)) / pageSize] := pairRoom_push (hr.room j hj k hk h₁ h₂) haptrs
  have hhead (hpos : 0 < n) : PairRoom cfg (Sys.push (Sys.push s a) b) s.aptrs.length (s.aptrs.length + 1)
      [y / pageSize, z / pageSize] := by
    have := hroom hpos hpos (by omega) (by omega)
    rwa [Nat.cast_zero, Int.add_zero, Int.add_zero] at this
  rw [hlen] at hc₂
  refine ⟨a, b, _, _, hcons, hcons', rfl, haptrs, ⟨hr₂, by omega, hca, hc₂, hr.left, hr.right, ?_, ?_, ?_⟩⟩
  · exact fun j hj k hk h₁ h₂ => hroom hj hk h₁ h₂
  · intro hpos
    rw [hnone hlb]
    exact RoomFor.sublist (hhead hpos) (by simp)
  · intro hpos
    rw [hnone hla]
    exact RoomFor.sublist (hhead hpos) (by simp)

/-- 二つの局所の `Aptr` を使い終えて戻る。 -/
theorem Paired.leave {s₁ : Sys} (hG : G.Correct) (hs : s₁.aptrs = s.aptrs ++ [some a, some b])
    (hst : s₁.state = s.state) (h : Paired cfg G s₁ s.aptrs.length (s.aptrs.length + 1) R M s' a' b') : ∃ s₃ s₄,
      s'.step cfg G id (.destroy (s.aptrs.length + 1)) = .ok s₃ ∧ s₃.step cfg G id (.destroy s.aptrs.length) = .ok s₄ ∧
        Returned cfg G s R M s₄ := by
  have haptrs : s'.aptrs = s.aptrs ++ [some a', some b'] := by
    rw [h.aptrs, hs, set_last_two, set_last_one]
  have hb : s'.get (s.aptrs.length + 1) = .ok b' := Sys.get_ok_iff.mpr (by rw [haptrs]; simp)
  obtain ⟨s₃, hstep, hr₃, haptrs₃, htrace₃⟩ := destroy_ok hG h.ready hb
  rw [haptrs, set_last_one] at haptrs₃
  have ha : s₃.get s.aptrs.length = .ok a' := Sys.get_ok_iff.mpr (by rw [haptrs₃]; simp)
  obtain ⟨s₄, hstep', hr₄, haptrs₄, htrace₄⟩ := destroy_ok hG hr₃ ha
  rw [haptrs₃, set_last_two] at haptrs₄
  refine ⟨s₃, s₄, hstep, hstep', ⟨hr₄, ?_, ?_, ?_⟩⟩
  · rw [← linked_two (s := s) s₄.state]
    unfold Sys.linked
    rw [haptrs₄]
  · rw [htrace₄, htrace₃]
    exact h.last
  · rw [htrace₄, htrace₃, ← hst]
    exact h.trace

theorem memcmpAptrAptr_ok (hG : G.Correct) (h : Ready cfg G s) (hr : TwoRanges cfg s y z n) : ∃ s' r,
    memcmpAptrAptr cfg G s y z n = .ok (s', r) ∧ Returned cfg G s (Ranges y z n) (lastWrite s.state.trace) s' ∧
      ∀ u w : Nat → UInt8, (∀ k < n, lastWrite s.state.trace (y + (k : Nat)) = some (u k)) →
        (∀ k < n, lastWrite s.state.trace (z + (k : Nat)) = some (w k)) → Compares n u w r := by
  obtain ⟨a, b, s₁, s₂, hcons, hcons', hst, haptrs, ht⟩ := constructTwo_ok hG h hr
  obtain ⟨s₃, r, a₃, b₃, hloop, hpair, hcmp⟩ := memcmpAptrAptrLoop_ok hG ht
  rw [hst] at hpair hcmp
  obtain ⟨s₄, s₅, hdestroy, hdestroy', hret⟩ := hpair.leave hG haptrs hst
  exact ⟨s₅, r, bind_ok_iff.mpr ⟨s₁, hcons, bind_ok_iff.mpr ⟨s₂, hcons', bind_ok_iff.mpr ⟨_, hloop,
    bind_ok_iff.mpr ⟨s₄, hdestroy, bind_ok_iff.mpr ⟨s₅, hdestroy', rfl⟩⟩⟩⟩⟩, hret, hcmp⟩

/-- 二つのうち左の `Aptr` に `hint_write` を立てる。 -/
theorem Tandem.hint (hG : G.Correct) (h : Tandem cfg G s d e a b y z n) : ∃ s',
    s.step cfg G id (.hint d true) = .ok s' ∧ s'.state = s.state ∧
      s'.aptrs = s.aptrs.set d (some { a with hintWrite := true }) ∧
      Tandem cfg G s' d e { a with hintWrite := true } b y z n := by
  obtain ⟨s', hstep, hr, hst, haptrs, hc⟩ := hint_ok (w := true) hG h.ready h.left
  have hroom {ps : List Int} (hps : PairRoom cfg s d e ps) : PairRoom cfg s' d e ps := by
    refine RoomFor.congr hps ?_
    unfold Sys.linked Sys.set
    dsimp only
    rw [haptrs, List.set_set]
  exact ⟨s', hstep, hst, haptrs, ⟨hr, h.ne, hc, h.right.other h.ne haptrs, h.leftPool, h.rightPool,
    fun j hj k hk h₁ h₂ => hroom (h.room j hj k hk h₁ h₂), fun hpos => hroom (h.leftRoom hpos),
    fun hpos => hroom (h.rightRoom hpos)⟩⟩

theorem memcpyAptr_ok {o : Bool} (hG : G.Correct) (h : Ready cfg G s) (hr : TwoRanges cfg s y z n) : ∃ s' vs,
    memcpyAptr cfg G o s y z n = .ok s' ∧ (vs = [] ∨ vs.length = n) ∧
      Returned cfg G s (Ranges y z n) (overlay (lastWrite s.state.trace) y vs) s' ∧
      ((∀ x, Range y n x → ¬ Range z n x) → Delivers (lastWrite s.state.trace) z n vs) := by
  unfold memcpyAptr
  by_cases hskip : n = 0 ∨ y = z
  · rw [if_pos hskip]
    refine ⟨s, [], rfl, Or.inl rfl, by rw [overlay_nil]; exact .refl h, ?_⟩
    intro hdis
    -- 同じ番地から始まる範囲は、長さが 0 でなければ重なる。
    have hn : n = 0 := by
      rcases hskip with hn | rfl
      · exact hn
      · by_contra hpos
        have hin : Range y n y := ⟨Int.le_refl y, by omega⟩
        exact hdis y hin hin
    subst hn
    exact ⟨rfl, fun k _ hk => absurd hk (Nat.not_lt_zero k)⟩
  · rw [if_neg hskip]
    obtain ⟨a, b, s₁, s₂, hcons, hcons', hst, haptrs, ht⟩ := constructTwo_ok hG h hr
    obtain ⟨s₃, hhint, hst₃, haptrs₃, ht₃⟩ := ht.hint hG
    obtain ⟨s₄, vs, a₄, b₄, hloop, hlen, hpair, hdel⟩ := memcpyLoop_ok o hG ht₃ rfl
    rw [hst₃, hst] at hpair hdel
    rw [haptrs, set_last_two] at haptrs₃
    obtain ⟨s₅, s₆, hdestroy, hdestroy', hret⟩ := hpair.leave hG haptrs₃ (hst₃.trans hst)
    exact ⟨s₆, vs, bind_ok_iff.mpr ⟨s₁, hcons, bind_ok_iff.mpr ⟨s₂, hcons', bind_ok_iff.mpr ⟨s₃, hhint,
      bind_ok_iff.mpr ⟨s₄, hloop, bind_ok_iff.mpr ⟨s₅, hdestroy, hdestroy'⟩⟩⟩⟩⟩, Or.inr hlen, hret, hdel⟩

/-! ## 実行 -/

theorem call_ready {c : Call} (hG : G.Correct) (h : Ready cfg G s) (hg : CallGuard cfg G s c)
    (hc : call cfg G s c = .ok s') : Ready cfg G s' := by
  cases c with
  | op o => exact ⟨Move.good hG h.good (hg.2 s' hc) (step_move h.good.pinned hg.1 hc), hg.2 s' hc⟩
  | memmoveRegAptr dst src =>
      obtain ⟨a, ha⟩ := hg
      obtain ⟨s₁, vs, a₁, hrun, hpass, -, -⟩ := memmoveRegAptr_ok hG h ha
      obtain ⟨r, hr, hs⟩ := bind_ok_iff.mp hc
      rw [hrun] at hr
      cases hr
      cases hs
      exact hpass.ready
  | memmoveAptrReg dst src =>
      obtain ⟨a, ha⟩ := hg
      have hfit : src = [] ∨ a.offset + pageSize < 2147483648 := by
        by_contra hn
        rw [not_or, Int.not_lt] at hn
        have hc' : memmoveAptrReg cfg G s dst src = .ok s' := hc
        rw [memmoveAptrReg_overflow hG h ha hn.2 hn.1] at hc'
        cases hc'
      obtain ⟨s₁, hrun, hret, -⟩ := memmoveAptrReg_ok hG h ha hfit
      cases hrun.symm.trans hc
      exact hret.ready
  | memsetAptr dst c n =>
      obtain ⟨s₁, hrun, hret⟩ := memsetAptr_ok (c := c) hG h hg
      cases hrun.symm.trans hc
      exact hret.ready
  | memcmpAptrAptr s1 s2 n =>
      obtain ⟨s₁, r₁, hrun, hret, -⟩ := memcmpAptrAptr_ok hG h hg
      obtain ⟨r, hr, hs⟩ := bind_ok_iff.mp hc
      rw [hrun] at hr
      cases hr
      cases hs
      exact hret.ready
  | memcmpRegAptr s1 s2 =>
      obtain ⟨s₁, r₁, hrun, hret, -⟩ := memcmpRegAptr_ok hG h hg
      obtain ⟨r, hr, hs⟩ := bind_ok_iff.mp hc
      rw [hrun] at hr
      cases hr
      cases hs
      exact hret.ready
  | memcpyAptr o dst src n =>
      obtain ⟨s₁, vs, hrun, -, hret, -⟩ := memcpyAptr_ok (o := o) hG h hg
      cases hrun.symm.trans hc
      exact hret.ready

theorem Calls.ready (hG : G.Correct) (h : Ready cfg G s) (hc : Calls cfg G s s') : Ready cfg G s' := by
  induction hc with
  | refl => exact h
  | step _ hg hstep ih => exact call_ready hG ih hg hstep

theorem Session.ready (hG : G.Correct) (h : Session cfg G s) : Ready cfg G s := by
  obtain ⟨epc, pool, key, rand, hc⟩ := h
  refine hc.ready hG ⟨Sys.init_good cfg epc pool key rand, ⟨fun p => Nat.zero_le _, ?_⟩⟩
  exact Nat.sub_pos_of_lt cfg.capacity_pos

end Eleos.Libc
