import Eleos.Libc.Lemmas.Strncmp
import Eleos.Pager.Theorems

/-!
# メモリの塊を扱う関数の性質

塊の写しの正しさ、読み出しで `Aptr` が動かないこと、一バイトずつ進む関数の正しさを、前提を満たす呼び出しだけで到達できる
すべての状態について述べる。
-/

namespace Eleos.Libc

open Pager

variable {cfg : Config} {G : Gcm} {s s' : Sys} {a b : Aptr} {d n : Nat} {y : Int} {vs dst : List UInt8}

/-! ## 塊の写し -/

/-- `memmove_aptr_reg` は番地 `a` から `vs` を書き、ほかの書き込み済みの値を変えない。`memmove_reg_aptr` はいまの値を返す。 -/
structure BulkExact (cfg : Config) (G : Gcm) (s : Sys) (d : Nat) (a : Aptr) (vs : List UInt8) : Prop where
  write : ∃ s', memmoveAptrReg cfg G s d vs = .ok s' ∧ (∀ k < vs.length, byteAt G s' (a.addr + (k : Nat)) = vs[k]?) ∧
    ∀ y, Written s y → ¬ Range a.addr vs.length y → byteAt G s' y = byteAt G s y
  read : ∀ e b dst, Readable cfg s e b dst.length → (∀ y, Range b.addr dst.length y → Written s y) →
    ∃ s' us, memmoveRegAptr cfg G s dst e = .ok (s', us) ∧ us.length = dst.length ∧
      ∀ k < dst.length, byteAt G s (b.addr + (k : Nat)) = us[k]?
  -- 書いたあとに範囲への書き込みがなければ、ほかに何をしても、書いた値が読み戻される。
  roundTrip : ∀ s' s'' l e b dst, memmoveAptrReg cfg G s d vs = .ok s' → Calls cfg G s' s'' →
    s''.state.trace = l ++ s'.state.trace → (∀ y v, .write y v ∈ l → ¬ Range a.addr vs.length y) →
    Readable cfg s'' e b dst.length → b.addr = a.addr → dst.length = vs.length →
    ∃ t, memmoveRegAptr cfg G s'' dst e = .ok (t, vs)

theorem lastWrite_outside {l l' : List Event} (hl : ∀ v, .write y v ∉ l) : lastWrite (l ++ l') y = lastWrite l' y := by
  induction l with
  | nil => rfl
  | cons ev l ih =>
      have ih' := ih fun v hv => hl v (List.mem_cons_of_mem ev hv)
      cases ev with
      | write x v =>
          have hne : y ≠ x := by
            rintro rfl
            exact hl v List.mem_cons_self
          show (if y = x then some v else lastWrite (l ++ l') y) = _
          rw [if_neg hne]
          exact ih'
      | read x v => exact ih'
      | evict p e => exact ih'
      | load p i e c => exact ih'

theorem Returned.roundTrip {l : List Event} {s'' : Sys} {e : Nat} {R : Int → Prop} (hG : G.Correct)
    (h : Returned cfg G s R (overlay (lastWrite s.state.trace) a.addr vs) s') (hc : Calls cfg G s' s'')
    (hl : s''.state.trace = l ++ s'.state.trace) (hout : ∀ y v, .write y v ∈ l → ¬ Range a.addr vs.length y)
    (hr : Readable cfg s'' e b dst.length) (hb : b.addr = a.addr) (hlen : dst.length = vs.length) :
    ∃ t, memmoveRegAptr cfg G s'' dst e = .ok (t, vs) := by
  obtain ⟨t, us, b', hrun, -, -, hdel⟩ := memmoveRegAptr_ok hG (hc.ready hG h.ready) hr
  rw [hb, hlen] at hdel
  have hus : us = vs := by
    refine hdel.eq fun k hk => ?_
    rw [hl, lastWrite_outside, h.last, overlay_inside hk]
    exact fun v hv => hout _ v hv ⟨by omega, by omega⟩
  exact ⟨t, by rw [hrun, hus]⟩

/-- 塊の写しが正しいのは、書く長さが 0 であるか、`do_copy` の `offset + PAGE_SIZE` が `int` に収まるとき、かつそのときに限る。 -/
theorem bulkExact_iff (hG : G.Correct) (hs : Session cfg G s) (hw : Writable cfg s d a vs.length) :
    BulkExact cfg G s d a vs ↔ vs = [] ∨ a.offset + pageSize < 2147483648 := by
  have h := hs.ready hG
  constructor
  · rintro ⟨⟨s', hrun, -⟩, -, -⟩
    by_contra hn
    rw [not_or, Int.not_lt] at hn
    rw [memmoveAptrReg_overflow hG h hw hn.2 hn.1] at hrun
    cases hrun
  · intro hfit
    obtain ⟨s', hrun, hret, -⟩ := memmoveAptrReg_ok hG h hw hfit
    have heff : Effect G s s' (Range a.addr vs.length) (Range a.addr vs.length) :=
      hret.effect h fun x hx => overlay_outside hx
    refine ⟨⟨s', hrun, ?_, heff.kept⟩, ?_, ?_⟩
    · intro k hk
      have hv := List.getElem?_eq_getElem hk
      rw [hv]
      exact byteAt_eq hret.ready.good (by rw [hret.last, overlay_inside hk, hv])
    · intro e b dst hr hwr
      obtain ⟨s₁, us, b', hread, -, -, hdel⟩ := memmoveRegAptr_ok hG h hr
      refine ⟨s₁, us, hread, hdel.1, ?_⟩
      intro k hk
      obtain ⟨w, hv⟩ := hwr (b.addr + k) ⟨by omega, by omega⟩
      rw [byteAt_eq h.good hv, hdel.2 k w hk hv]
    · intro s₁ s₂ l e b dst hrun₁ hc hl hout hr hb hlen
      cases hrun.symm.trans hrun₁
      exact hret.roundTrip hG hc hl hout hr hb hlen

/-! ## 塊の写しの例 -/

/-- つながっている `Aptr` がなければ、一つのページにつなぐ余地がある。 -/
theorem roomFor_unlinked {p : Int} (hl : s.linked = []) (hcap : maxNumOfThreadsOptimization + 1 < cfg.cacheCapacity) :
    RoomFor cfg s [p] :=
  roomFor_few (m := 1) (n := 0) rfl (List.length_eq_zero_iff.mpr hl) (by decide) hcap

/-- 番地 4090 の `Aptr` を一つ構築した状態。 -/
def oneAptr : Sys :=
  { demoInit with aptrs := [some ⟨none, -1, 8186, false, 0, 16⟩] }

theorem oneAptr_session : Session demoConfig demoGcm oneAptr := by
  refine ⟨_, _, _, _, .step (c := .op (.construct 4090 16)) .refl ⟨⟨by decide, by decide⟩, ?_⟩ rfl⟩
  rintro _ ⟨⟩
  decide

theorem oneAptr_writable : Writable demoConfig oneAptr 0 ⟨none, -1, 8186, false, 0, 16⟩ 12 where
  get := rfl
  base := by decide
  nonneg := by decide
  int := by decide
  range := ⟨by decide, by decide⟩
  small := by decide
  room := fun _ _ => roomFor_unlinked rfl (by decide)

/-- 二枚のページにまたがる 12 バイトを書く。 -/
theorem bulkExact_iff_oneAptr : BulkExact demoConfig demoGcm oneAptr 0 ⟨none, -1, 8186, false, 0, 16⟩
    [1, 2, 3, 4, 5, 6, 7, 8, 9, 10, 11, 12] :=
  (bulkExact_iff demoGcm_correct oneAptr_session oneAptr_writable).mpr (Or.inr (by decide))

/-- `b = a; a = b;` を `k` 回繰り返したあとの `a` の値。 -/
def shuttled (k : Nat) : Aptr := ⟨none, -1 - 2 * k, 4096 * (2 * k + 1), false, 0, 1⟩

theorem shuttled_doCopy {k : Nat} (hk : k < 262143) : (shuttled k).doCopy.doCopy = shuttled (k + 1) := by
  have h₁ : int32 (int32 (-1 - 2 * (k : Int) - 1) - 1) = -1 - 2 * ((k + 1 : Nat) : Int) := by
    rw [int32_of_range (x := -1 - 2 * (k : Int) - 1) (by omega) (by omega), int32_of_range (by omega) (by omega)]
    push_cast
    ring
  have h₂ : int32 (int32 (4096 * (2 * (k : Int) + 1) + 4096) + 4096) = 4096 * (2 * ((k + 1 : Nat) : Int) + 1) := by
    rw [int32_of_range (x := 4096 * (2 * (k : Int) + 1) + 4096) (by omega) (by omega),
      int32_of_range (by omega) (by omega)]
    push_cast
    ring
  unfold shuttled Aptr.doCopy
  dsimp only
  simp only [pageSize, Nat.cast_ofNat]
  rw [h₁, h₂]

theorem exists_shuttled {k : Nat} (hk : k ≤ 262143) : ∃ b, b.prmPtr = none ∧
    Session demoConfig demoGcm { demoInit with aptrs := [some (shuttled k), some b] } := by
  induction k with
  | zero =>
      refine ⟨shuttled 0, rfl, _, _, _, _, .step (c := .op (.construct 0 1)) (.step (c := .op (.construct 0 1)) .refl
        ⟨⟨by decide, by decide⟩, ?_⟩ rfl) ⟨⟨by decide, by decide⟩, ?_⟩ rfl⟩
      · rintro _ ⟨⟩
        decide
      · rintro _ ⟨⟩
        decide
  | succ k ih =>
      obtain ⟨b, hb, epc, pool, key, rand, hc⟩ := ih (by omega)
      have hprm (c : Aptr) (hp : c.prmPtr = none) : demoInit.state.prm c = 0 := by
        unfold State.prm
        rw [hp]
      have hreset (c : Aptr) (hp : c.prmPtr = none) : c.reset demoInit.state =
          .ok (demoInit.state, { c with basePageIndex := -1, prmPtr := none }) := by
        unfold Aptr.reset
        dsimp only
        rw [if_pos (Or.inr (hprm c hp))]
      have hassign₁ : Sys.step demoConfig demoGcm id { demoInit with aptrs := [some (shuttled k), some b] } (.assign 1 0) =
          .ok { demoInit with aptrs := [some (shuttled k), some (shuttled k).doCopy] } :=
        bind_ok_iff.mpr ⟨b, rfl, bind_ok_iff.mpr ⟨_, hreset b hb, rfl⟩⟩
      have hassign₂ : Sys.step demoConfig demoGcm id { demoInit with aptrs := [some (shuttled k), some (shuttled k).doCopy] }
          (.assign 0 1) = .ok { demoInit with aptrs := [some (shuttled (k + 1)), some (shuttled k).doCopy] } := by
        rw [← shuttled_doCopy (by omega)]
        exact bind_ok_iff.mpr ⟨_, rfl, bind_ok_iff.mpr ⟨_, hreset _ rfl, rfl⟩⟩
      refine ⟨(shuttled k).doCopy, rfl, epc, pool, key, rand, .step (c := .op (.assign 0 1))
        (.step (c := .op (.assign 1 0)) hc ⟨⟨⟨b, rfl⟩, ⟨_, rfl⟩⟩, ?_⟩ hassign₁) ⟨⟨⟨_, rfl⟩, ⟨_, rfl⟩⟩, ?_⟩ hassign₂⟩
      · intro s' hs'
        cases hassign₁.symm.trans hs'
        exact ⟨fun p => Nat.zero_le _, (by decide : 0 < 32 - 10)⟩
      · intro s' hs'
        cases hassign₂.symm.trans hs'
        exact ⟨fun p => Nat.zero_le _, (by decide : 0 < 32 - 10)⟩

/-- 262143 回の往復のあとの `a` は、番地 0 を指すが、複写できない。 -/
theorem shuttled_not_bulkExact : ∃ s, Session demoConfig demoGcm s ∧ Writable demoConfig s 0 (shuttled 262143) 1 ∧
    (shuttled 262143).addr = 0 ∧ ¬ BulkExact demoConfig demoGcm s 0 (shuttled 262143) [7] := by
  obtain ⟨b, hb, hs⟩ := exists_shuttled (Nat.le_refl _)
  have hlinked : Sys.linked { demoInit with aptrs := [some (shuttled 262143), some b] } = [] := by
    unfold Sys.linked
    rw [List.filterMap_cons_none rfl, List.filterMap_cons_none (by rw [Option.bind_some, Aptr.linkedPage?, hb]; rfl)]
    rfl
  have hw : Writable demoConfig { demoInit with aptrs := [some (shuttled 262143), some b] } 0 (shuttled 262143) 1 :=
    ⟨rfl, by decide, by decide, by decide, ⟨by decide, by decide⟩, by decide,
      fun _ _ => roomFor_unlinked hlinked (by decide)⟩
  refine ⟨_, hs, hw, by decide, ?_⟩
  rintro ⟨⟨s', hrun, -⟩, -, -⟩
  rw [memmoveAptrReg_overflow demoGcm_correct (hs.ready demoGcm_correct) hw (by decide) (by decide)] at hrun
  cases hrun

/-! ## 読み出しと `Aptr` の位置 -/

/-- 読み出しのあとも `Aptr` は同じ番地を指し、続けて読めば同じ値が得られる。 -/
structure Unmoved (read : Sys → List UInt8 → Nat → Except Stop (Sys × List UInt8)) (s : Sys) (dst : List UInt8) (d : Nat)
    (a : Aptr) : Prop where
  addr : ∃ s' vs a', read s dst d = .ok (s', vs) ∧ s'.get d = .ok a' ∧ a'.addr = a.addr
  again : ∀ s' vs, read s dst d = .ok (s', vs) → ∃ s'', read s' dst d = .ok (s'', vs)

theorem lastStart_eq_iff : lastStart y n = y ↔ y % pageSize + n ≤ pageSize := by
  unfold lastStart pageSize
  split <;> omega

/-- 読み出しで `Aptr` が動かないのは、範囲が一つのページに収まるとき、かつそのときに限る。 -/
theorem unmoved_iff (hG : G.Correct) (hs : Session cfg G s) (hr : Readable cfg s d a dst.length) :
    (Unmoved (memmoveRegAptr cfg G) s dst d a ∧ Unmoved (memcpyRegAptr cfg G) s dst d a) ↔
      a.addr % pageSize + dst.length ≤ pageSize := by
  have h := hs.ready hG
  obtain ⟨s₁, vs, a₁, hrun, hpass, haddr, -⟩ := memmoveRegAptr_ok hG h hr
  have hiff : Unmoved (memmoveRegAptr cfg G) s dst d a ↔ a.addr % pageSize + dst.length ≤ pageSize := by
    rw [← lastStart_eq_iff, ← haddr]
    constructor
    · rintro ⟨⟨s₂, us, a₂, hrun', hget, haddr'⟩, -⟩
      cases hrun.symm.trans hrun'
      cases (hpass.get hr.get).symm.trans hget
      exact haddr'
    · intro heq
      refine ⟨⟨s₁, vs, a₁, hrun, hpass.get hr.get, heq⟩, ?_⟩
      obtain ⟨t₁, t₂, us, h₁, h₂⟩ := memmoveRegAptr_again hG h hr (lastStart_eq_iff.mp (haddr.symm.trans heq))
      intro s' ws hrun'
      cases h₁.symm.trans hrun'
      exact ⟨t₂, h₂⟩
  exact ⟨fun hu => hiff.mp hu.1, fun hp => ⟨hiff.mpr hp, hiff.mpr hp⟩⟩

theorem oneAptr_readable {m : Nat} (hm : m ≤ 12) : Readable demoConfig oneAptr 0 ⟨none, -1, 8186, false, 0, 16⟩ m where
  get := rfl
  base := by decide
  biased := fun _ => by decide
  range := ⟨by decide, by
    show (4090 : Int) + m ≤ 64 * 4096
    omega⟩
  small := by omega
  room := fun _ _ => roomFor_unlinked rfl (by decide)

theorem unmoved_iff_oneAptr : Unmoved (memmoveRegAptr demoConfig demoGcm) oneAptr [0, 0, 0, 0] 0
      ⟨none, -1, 8186, false, 0, 16⟩ ∧
    Unmoved (memcpyRegAptr demoConfig demoGcm) oneAptr [0, 0, 0, 0] 0 ⟨none, -1, 8186, false, 0, 16⟩ :=
  (unmoved_iff demoGcm_correct oneAptr_session (oneAptr_readable (by decide))).mpr (by decide)

/-- 番地 4090 から 8 バイトを読むと、`Aptr` は番地 4096 に移る。 -/
theorem oneAptr_moved : Session demoConfig demoGcm oneAptr ∧
    Readable demoConfig oneAptr 0 ⟨none, -1, 8186, false, 0, 16⟩ 8 ∧
    (∃ s' vs a', memmoveRegAptr demoConfig demoGcm oneAptr [0, 0, 0, 0, 0, 0, 0, 0] 0 = .ok (s', vs) ∧
      s'.get 0 = .ok a' ∧ a'.addr = 4096) ∧
    ¬ Unmoved (memmoveRegAptr demoConfig demoGcm) oneAptr [0, 0, 0, 0, 0, 0, 0, 0] 0
      ⟨none, -1, 8186, false, 0, 16⟩ := by
  have hr : Readable demoConfig oneAptr 0 ⟨none, -1, 8186, false, 0, 16⟩
      ([0, 0, 0, 0, 0, 0, 0, 0] : List UInt8).length := oneAptr_readable (by decide)
  obtain ⟨s₁, vs, a₁, hrun, hpass, haddr, -⟩ :=
    memmoveRegAptr_ok demoGcm_correct (oneAptr_session.ready demoGcm_correct) hr
  refine ⟨oneAptr_session, hr, ⟨s₁, vs, a₁, hrun, hpass.get hr.get, haddr⟩, ?_⟩
  rintro ⟨⟨s₂, us, a₂, hrun', hget, haddr'⟩, -⟩
  cases hrun.symm.trans hrun'
  cases (hpass.get hr.get).symm.trans hget
  rw [haddr] at haddr'
  revert haddr'
  decide

/-! ## 一バイトずつ進む関数 -/

/-- `memset_aptr`、`memcpy_aptr`、`memcmp_aptr_aptr`、`memcmp_reg_aptr` は、平らなメモリの上の関数と同じ結果になる。
与えた範囲の外を読み書きせず、戻ったときの参照の数は元のとおりである。 -/
structure ShimsExact (cfg : Config) (G : Gcm) (s : Sys) : Prop where
  memset : ∀ dst c n, OneRange cfg s dst n → ∃ s', memsetAptr cfg G s dst c n = .ok s' ∧
    (∀ k < n, byteAt G s' (dst + (k : Nat)) = some (UInt8.ofInt c)) ∧ Effect G s s' (Range dst n) (Range dst n)
  memcpy : ∀ order dst src n, TwoRanges cfg s dst src n → (∀ x, Range dst n x → ¬ Range src n x) →
    (∀ x, Range src n x → Written s x) → ∃ s', memcpyAptr cfg G order s dst src n = .ok s' ∧
      (∀ k < n, byteAt G s' (dst + (k : Nat)) = byteAt G s (src + (k : Nat))) ∧
      Effect G s s' (Ranges dst src n) (Range dst n)
  memcmp : ∀ s1 s2 n, TwoRanges cfg s s1 s2 n → (∀ x, Ranges s1 s2 n x → Written s x) →
    ∃ s' r u w, memcmpAptrAptr cfg G s s1 s2 n = .ok (s', r) ∧ (∀ k < n, byteAt G s (s1 + (k : Nat)) = some (u k)) ∧
      (∀ k < n, byteAt G s (s2 + (k : Nat)) = some (w k)) ∧ Compares n u w r ∧
      Effect G s s' (Ranges s1 s2 n) fun _ => False
  memcmpReg : ∀ s1 s2, OneRange cfg s s2 s1.length → (∀ x, Range s2 s1.length x → Written s x) →
    ∃ s' r u w, memcmpRegAptr cfg G s s1 s2 = .ok (s', r) ∧ (∀ k < s1.length, s1[k]? = some (u k)) ∧
      (∀ k < s1.length, byteAt G s (s2 + (k : Nat)) = some (w k)) ∧ Compares s1.length u w r ∧
      Effect G s s' (Range s2 s1.length) fun _ => False

/-- 書き込み済みの範囲の値を並べた関数。 -/
theorem written_bytes (h : Ready cfg G s) (hw : ∀ x, Range y n x → Written s x) : ∃ u : Nat → UInt8,
    (∀ k < n, lastWrite s.state.trace (y + (k : Nat)) = some (u k)) ∧ ∀ k < n, byteAt G s (y + (k : Nat)) = some (u k) := by
  have hu (k : Nat) (hk : k < n) :
      lastWrite s.state.trace (y + (k : Nat)) = some ((lastWrite s.state.trace (y + (k : Nat))).getD 0) := by
    obtain ⟨v, hv⟩ := hw (y + k) ⟨by omega, by omega⟩
    rw [hv]
    rfl
  exact ⟨fun k => (lastWrite s.state.trace (y + (k : Nat))).getD 0, hu, fun k hk => byteAt_eq h.good (hu k hk)⟩

theorem shimsExact (hG : G.Correct) (hs : Session cfg G s) : ShimsExact cfg G s := by
  have h := hs.ready hG
  refine ⟨?_, ?_, ?_, ?_⟩
  · intro dst c n hr
    obtain ⟨s', hrun, hret⟩ := memsetAptr_ok (c := c) hG h hr
    have hlen : (List.replicate n (UInt8.ofInt c)).length = n := List.length_replicate
    refine ⟨s', hrun, ?_, hret.effect h fun x hx => overlay_outside (by rw [hlen]; exact hx)⟩
    intro k hk
    refine byteAt_eq hret.ready.good ?_
    rw [hret.last, overlay_inside (by rw [hlen]; exact hk), List.getElem?_replicate, if_pos hk]
  · intro order dst src n hr hdis hwr
    obtain ⟨s', vs, hrun, -, hret, hdel⟩ := memcpyAptr_ok (o := order) hG h hr
    obtain ⟨hlen, hvs⟩ := hdel hdis
    obtain ⟨u, hu, hu'⟩ := written_bytes h hwr
    refine ⟨s', hrun, ?_, hret.effect h fun x hx => overlay_outside (by rw [hlen]; exact hx)⟩
    intro k hk
    rw [hu' k hk]
    refine byteAt_eq hret.ready.good ?_
    rw [hret.last, overlay_inside (by rw [hlen]; exact hk), hvs k _ hk (hu k hk)]
  · intro s1 s2 n hr hwr
    obtain ⟨s', r, hrun, hret, hcmp⟩ := memcmpAptrAptr_ok hG h hr
    obtain ⟨u, hu, hu'⟩ := written_bytes h fun x hx => hwr x (Or.inl hx)
    obtain ⟨w, hw, hw'⟩ := written_bytes h fun x hx => hwr x (Or.inr hx)
    exact ⟨s', r, u, w, hrun, hu', hw', hcmp u w hu hw, hret.effect h fun _ _ => rfl⟩
  · intro s1 s2 hr hwr
    obtain ⟨s', r, hrun, hret, hcmp⟩ := memcmpRegAptr_ok hG h hr
    obtain ⟨w, hw, hw'⟩ := written_bytes h hwr
    have hu (k : Nat) (hk : k < s1.length) : s1[k]? = some (s1[k]?.getD 0) := by
      rw [List.getElem?_eq_getElem hk]
      rfl
    exact ⟨s', r, fun k => s1[k]?.getD 0, w, hrun, hu, hw', hcmp _ w hu hw, hret.effect h fun _ _ => rfl⟩

theorem ofInt_toNat (c : UInt8) : UInt8.ofInt c.toNat = c := by
  have := c.toNat_lt
  apply UInt8.toNat_inj.mp
  unfold UInt8.ofInt
  simp
  omega

/-- つながっている `Aptr` のない状態から、`memset_aptr` で一つの範囲を埋めた状態。 -/
theorem exists_fill (c : UInt8) (hs : Session demoConfig demoGcm s) (hl : s.linked = [])
    (hstart : y < demoConfig.poolPages * pageSize) (hrange : InPool demoConfig y n) :
    ∃ s', Session demoConfig demoGcm s' ∧ s'.linked = [] ∧
      lastWrite s'.state.trace = overlay (lastWrite s.state.trace) y (List.replicate n c) := by
  have hr : OneRange demoConfig s y n := ⟨hstart, hrange, fun _ _ => roomFor_unlinked hl (by decide)⟩
  obtain ⟨s', hrun, hret⟩ := memsetAptr_ok (c := c.toNat) demoGcm_correct (hs.ready demoGcm_correct) hr
  rw [ofInt_toNat] at hret
  obtain ⟨epc, pool, key, rand, hcalls⟩ := hs
  exact ⟨s', ⟨epc, pool, key, rand, .step (c := .memsetAptr y c.toNat n) hcalls hr hrun⟩, hret.linked.trans hl,
    hret.last⟩

theorem demoInit_session : Session demoConfig demoGcm demoInit := ⟨_, _, _, _, .refl⟩

/-- 65 が 6 個、200 が 6 個、二枚のページにまたがって並ぶ状態。 -/
theorem exists_striped : ∃ s, Session demoConfig demoGcm s ∧ s.linked = [] ∧
    ∀ k < 12, lastWrite s.state.trace (4090 + (k : Nat)) = some (if k < 6 then 65 else 200) := by
  obtain ⟨s₁, hs₁, hl₁, hlast₁⟩ := exists_fill (y := 4090) (n := 6) 65 demoInit_session rfl (by decide)
    ⟨by decide, by decide⟩
  obtain ⟨s, hs, hl, hlast⟩ := exists_fill (y := 4096) (n := 6) 200 hs₁ hl₁ (by decide) ⟨by decide, by decide⟩
  refine ⟨s, hs, hl, ?_⟩
  intro k hk
  rw [hlast]
  by_cases hlt : k < 6
  · have hout : ¬ Range 4096 (List.replicate 6 (200 : UInt8)).length (4090 + (k : Nat)) := by
      rw [List.length_replicate]
      rintro ⟨h, -⟩
      omega
    rw [overlay_outside hout, hlast₁, overlay_inside (by rw [List.length_replicate]; exact hlt),
      List.getElem?_replicate, if_pos hlt, if_pos hlt]
  · have hy : (4090 : Int) + (k : Nat) = 4096 + ((k - 6 : Nat) : Int) := by omega
    rw [hy, overlay_inside (by rw [List.length_replicate]; omega), List.getElem?_replicate, if_pos (by omega), if_neg hlt]

/-- 四つの関数を、二枚のページにまたがる範囲で呼ぶ。比較の結果は、最初の違いの差である。 -/
theorem shimsExact_striped : ∃ s, Session demoConfig demoGcm s ∧
    (∀ k < 12, byteAt demoGcm s (4090 + (k : Nat)) = some (if k < 6 then 65 else 200)) ∧
    (∃ s', memsetAptr demoConfig demoGcm s 4094 (-1) 4 = .ok s' ∧
      ∀ k < 4, byteAt demoGcm s' (4094 + (k : Nat)) = some 255) ∧
    (∃ s', memcpyAptr demoConfig demoGcm true s 20478 4090 12 = .ok s' ∧
      ∀ k < 12, byteAt demoGcm s' (20478 + (k : Nat)) = some (if k < 6 then 65 else 200)) ∧
    (∃ s', memcmpAptrAptr demoConfig demoGcm s 4090 4094 4 = .ok (s', 65 - 200)) ∧
    ∃ s', memcmpRegAptr demoConfig demoGcm s [65, 65, 9] 4090 = .ok (s', 9 - 65) := by
  obtain ⟨s, hs, hl, hlast⟩ := exists_striped
  have hbyte (k : Nat) (hk : k < 12) : byteAt demoGcm s (4090 + (k : Nat)) = some (if k < 6 then 65 else 200) :=
    byteAt_eq (hs.ready demoGcm_correct).good (hlast k hk)
  have hval {k : Nat} {v : UInt8} (hk : k < 12) (hv : byteAt demoGcm s (4090 + (k : Nat)) = some v) :
      v = if k < 6 then 65 else 200 := Option.some.inj (hv.symm.trans (hbyte k hk))
  have hwritten {y : Int} (hy : Range 4090 12 y) : Written s y := by
    have hk : 4090 + ((y - 4090).toNat : Int) = y := by
      have := hy.1
      omega
    exact ⟨_, hk ▸ hlast (y - 4090).toNat (by have := hy.2; omega)⟩
  have hone (p : Int) : RoomFor demoConfig s [p] := roomFor_unlinked hl (by decide)
  have htwo (p q : Int) : RoomFor demoConfig s [p, q] :=
    roomFor_few (m := 2) (n := 0) rfl (List.length_eq_zero_iff.mpr hl) (by decide) (by decide)
  have h := shimsExact demoGcm_correct hs
  refine ⟨s, hs, hbyte, ?_, ?_, ?_, ?_⟩
  · obtain ⟨s', hrun, hset, -⟩ := h.memset 4094 (-1) 4 ⟨by decide, ⟨by decide, by decide⟩, fun _ _ => hone _⟩
    exact ⟨s', hrun, hset⟩
  · obtain ⟨s', hrun, hcopy, -⟩ := h.memcpy true 20478 4090 12
      ⟨by decide, ⟨by decide, by decide⟩, ⟨by decide, by decide⟩, fun _ _ _ _ _ _ => htwo _ _⟩
      (by
        rintro x ⟨h₁, -⟩ ⟨-, h₂⟩
        omega)
      fun _ => hwritten
    exact ⟨s', hrun, fun k hk => (hcopy k hk).trans (hbyte k hk)⟩
  · obtain ⟨s', r, u, w, hrun, hu, hw, hcmp, -⟩ := h.memcmp 4090 4094 4
      ⟨by decide, ⟨by decide, by decide⟩, ⟨by decide, by decide⟩, fun _ _ _ _ _ _ => htwo _ _⟩
      (by
        rintro x (⟨h₁, h₂⟩ | ⟨h₁, h₂⟩)
        · exact hwritten ⟨h₁, by omega⟩
        · exact hwritten ⟨by omega, by omega⟩)
    have hu' (k : Nat) (hk : k < 4) : u k = 65 := (hval (by omega) (hu k hk)).trans (if_pos (by omega))
    have hw' (k : Nat) (hk : k < 4) : w k = if k < 2 then 65 else 200 := by
      have hy : (4094 : Int) + (k : Nat) = 4090 + ((k + 4 : Nat) : Int) := by omega
      have hv : w k = if k + 4 < 6 then 65 else 200 := hval (by omega) (hy ▸ hw k hk)
      rw [hv]
      exact if_congr (by omega) rfl rfl
    have hr := hcmp.first 2 (by decide) (fun j hj => by rw [hu' j (by omega), hw' j (by omega), if_pos hj])
      (by rw [hu' 2 (by decide), hw' 2 (by decide)]; decide)
    rw [hu' 2 (by decide), hw' 2 (by decide)] at hr
    exact ⟨s', hr ▸ hrun⟩
  · obtain ⟨s', r, u, w, hrun, hu, hw, hcmp, -⟩ := h.memcmpReg [65, 65, 9] 4090
      ⟨by decide, ⟨by decide, by decide⟩, fun _ _ => hone _⟩
      (by
        rintro x ⟨h₁, h₂⟩
        exact hwritten ⟨h₁, by simp at h₂; omega⟩)
    have hw' (k : Nat) (hk : k < 3) : w k = 65 := (hval (by omega) (hw k hk)).trans (if_pos (by omega))
    have hu' (k : Nat) (hk : k < 3) : u k = [65, 65, 9][k] :=
      Option.some.inj ((hu k hk).symm.trans (List.getElem?_eq_getElem hk))
    have hr := hcmp.first 2 (by decide)
      (by
        intro j hj
        rw [hw' j (by omega), hu' j (by omega)]
        obtain rfl | rfl : j = 0 ∨ j = 1 := by omega
        · rfl
        · rfl)
      (by rw [hu' 2 (by decide), hw' 2 (by decide)]; decide)
    rw [hu' 2 (by decide), hw' 2 (by decide)] at hr
    exact ⟨s', hr ▸ hrun⟩

/-! ## `strncmp` -/

/-- 番地 `s1` に並ぶ `us` と `s2` の `ws` について、`strncmp_aptr` は C の `strncmp` と同じ符号の値を返す。 -/
def StrncmpExact (cfg : Config) (G : Gcm) (s : Sys) (s1 : Int) (us ws : List UInt8) (n : Nat) : Prop :=
  ∃ s' r r', strncmpAptr cfg G s s1 ws n = .ok (s', r') ∧ strncmp n us ws = some r ∧ r'.sign = r.sign

/-- 番地 `y` から `us` が書き込まれている。 -/
def Stored (G : Gcm) (s : Sys) (y : Int) (us : List UInt8) : Prop :=
  ∀ k < us.length, Written s (y + (k : Nat)) ∧ byteAt G s (y + (k : Nat)) = us[k]?

theorem Stored.last {us : List UInt8} (h : Ready cfg G s) (hus : Stored G s y us) :
    ∀ k < us.length, lastWrite s.state.trace (y + (k : Nat)) = us[k]? := by
  intro k hk
  obtain ⟨⟨v, hv⟩, hbyte⟩ := hus k hk
  rw [hv, ← hbyte, byteAt_eq h.good hv]

/-- `strncmp_aptr` が `strncmp` になるのは、違いと NUL の前に 128 以上の等しい文字がないか、最初の違いで `s1` の文字が
大きいとき、かつそのときに限る。 -/
theorem strncmpExact_iff {us ws : List UInt8} (hG : G.Correct) (hs : Session cfg G s) (hr : OneRange cfg s y us.length)
    (hus : Stored G s y us) (hdef : (strncmp n us ws).isSome) :
    StrncmpExact cfg G s y us ws n ↔ ¬ MeetsHigh n us ws ∨ MeetsGreater n us ws := by
  have h := hs.ready hG
  obtain ⟨r, hr₀⟩ := Option.isSome_iff_exists.mp hdef
  obtain ⟨s₁, r₁, hrun, -, hj⟩ := strncmpAptr_ok hG h hr (hus.last h) hr₀
  rw [← strncmp_pos_iff hr₀]
  constructor
  · rintro ⟨s', r₂, r', hrun', hr₂, hsign⟩
    cases hrun.symm.trans hrun'
    cases hr₀.symm.trans hr₂
    by_cases hm : MeetsHigh n us ws
    · rw [hj.high hm] at hsign
      exact Or.inr (Int.sign_eq_one_iff_pos.mp hsign.symm)
    · exact Or.inl hm
  · intro hcase
    refine ⟨s₁, r, r₁, hrun, hr₀, ?_⟩
    by_cases hm : MeetsHigh n us ws
    · have hpos := hcase.resolve_left (not_not.mpr hm)
      rw [hj.high hm, Int.sign_eq_one_of_pos hpos]
      rfl
    · exact hj.low hm

/-- `memset_aptr` で二枚のページにまたがる 12 バイトを埋めた状態。 -/
theorem exists_filled (c : UInt8) : ∃ s, Session demoConfig demoGcm s ∧ OneRange demoConfig s 4090 12 ∧
    Stored demoGcm s 4090 (List.replicate 12 c) := by
  obtain ⟨s, hs, hl, hlast⟩ := exists_fill (y := 4090) (n := 12) c demoInit_session rfl (by decide)
    ⟨by decide, by decide⟩
  refine ⟨s, hs, ⟨by decide, ⟨by decide, by decide⟩, fun _ _ => roomFor_unlinked hl (by decide)⟩, ?_⟩
  intro k hk
  rw [List.length_replicate] at hk
  have hc : lastWrite s.state.trace (4090 + (k : Nat)) = some c := by
    rw [hlast, overlay_inside (by rw [List.length_replicate]; exact hk), List.getElem?_replicate, if_pos hk]
  refine ⟨⟨c, hc⟩, ?_⟩
  rw [byteAt_eq (hs.ready demoGcm_correct).good hc, List.getElem?_replicate, if_pos hk]

/-- 7 文字目で初めて違う二つの文字列。 -/
theorem strncmpExact_iff_filled : ∃ s, StrncmpExact demoConfig demoGcm s 4090 (List.replicate 12 65)
    [65, 65, 65, 65, 65, 65, 200, 0] 12 := by
  obtain ⟨s, hs, hr, hus⟩ := exists_filled 65
  refine ⟨s, (strncmpExact_iff demoGcm_correct hs (by rw [List.length_replicate]; exact hr) hus (by decide)).mpr
    (Or.inl ?_)⟩
  simp [MeetsHigh, meets_cons, List.replicate]

/-- 128 の文字が 12 個並ぶ等しい文字列は、等しいとされない。 -/
theorem strncmp_high : ∃ s, Session demoConfig demoGcm s ∧ OneRange demoConfig s 4090 12 ∧
    Stored demoGcm s 4090 (List.replicate 12 128) ∧
    strncmp 12 (List.replicate 12 128) (List.replicate 12 128) = some 0 ∧
    (∃ s', strncmpAptr demoConfig demoGcm s 4090 (List.replicate 12 128) 12 = .ok (s', 1)) ∧
    ¬ StrncmpExact demoConfig demoGcm s 4090 (List.replicate 12 128) (List.replicate 12 128) 12 := by
  obtain ⟨s, hs, hr, hus⟩ := exists_filled 128
  have h := hs.ready demoGcm_correct
  have hr₀ : strncmp 12 (List.replicate 12 128) (List.replicate 12 128) = some 0 := by decide
  obtain ⟨s₁, r₁, hrun, -, hj⟩ := strncmpAptr_ok demoGcm_correct h
    (by rw [List.length_replicate]; exact hr) (hus.last h) hr₀
  have hhigh : MeetsHigh 12 (List.replicate 12 128) (List.replicate 12 128) :=
    meets_cons.mpr (Or.inl ⟨rfl, by decide⟩)
  rw [hj.high hhigh] at hrun
  refine ⟨s, hs, hr, hus, hr₀, ⟨s₁, hrun⟩, ?_⟩
  rintro ⟨s', r, r', hrun', hr', hsign⟩
  cases hrun.symm.trans hrun'
  cases hr₀.symm.trans hr'
  revert hsign
  decide

end Eleos.Libc
