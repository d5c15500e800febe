import Eleos.Pager.Lemmas.Pointer
import Eleos.Pager.Theorems

/-!
# `Aptr` の番地の計算、比較、代入と枠の配置の定理
-/

namespace Eleos.Pager

variable {cfg : Config} {G : Gcm} {s s' : Sys} {a b : Aptr} {dst src pool : Nat}

/-! ## 番地の計算 -/

/-- プールの大きさが 2^31 バイト以下のとき、`offset` と `page` の正しい値が `int` に収まる限り、番地の計算は折り返さない。 -/
theorem addrExact (hpool : pool ≤ 2147483648) : AddrExact cfg G pool fun a => -2147483648 < a.page where
  construct := by
    intro x size h₀ h₁
    refine ⟨_, construct_of_pool size hpool h₀ h₁, ?_⟩
    unfold Aptr.addr pageSize
    dsimp only
    omega
  copy := fun a ha hf hp => (ha.sized hpool).doCopy_addr hf hp
  move := fun a n k _ hf => move_addr hf
  fault := by
    intro a host st st' a' ha h₀ h₁ hf
    obtain ⟨hpage, hsum, -⟩ := (ha.sized hpool).fault_page hpool h₀ h₁
    obtain ⟨hbase, hoff, -⟩ := pageFault_fields hf
    have hp : a'.basePageIndex + a'.page = a.addr / pageSize := by
      rw [hbase, pageFault_page hf, hpage, hsum]
    refine ⟨?_, ?_, ?_, hp⟩
    · have haddr : a.offset % (pageSize : Int) = a.addr % pageSize := by
        unfold Aptr.addr pageSize
        omega
      unfold Aptr.addr at *
      rw [hp, hoff, haddr]
      unfold pageSize
      omega
    · rw [hoff]
      unfold pageSize
      omega
    · rw [hoff]
      unfold pageSize
      omega
  index := by
    intro a st st' a' p ha h₀ h₁ hr
    obtain ⟨hpage, hsum, hfit⟩ := (ha.sized hpool).fault_page hpool h₀ h₁
    obtain ⟨hpa, hpi⟩ := retarget_page hr
    have hp : p = a.addr / pageSize := by
      rw [hpi, hpa, hpage, hsum]
      unfold pageSize
      exact int32_of_range (by omega) (by omega)
    rw [hp]
    exact ⟨rfl, hfit⟩
  evict := by
    intro s hs p it hit
    obtain ⟨hp, h₀, h₁⟩ := hs.inRange.get hit
    have hle : (cfg.poolPages : Int) ≤ 524288 := by exact_mod_cast cfg.poolPages_le
    refine ⟨hp, ?_, ?_⟩
    · unfold pageSize
      omega
    · unfold pageSize
      omega

theorem addrExact_full : AddrExact demoConfig demoGcm 2147483648 fun a => -2147483648 < a.page :=
  addrExact (Nat.le_refl _)

/-- 複写と一ページ戻る移動を `n` 回繰り返した `Aptr`。`offset` は変わらない。 -/
theorem built_back (n : Nat) (hn : n ≤ 2147483647) :
    Built demoConfig demoGcm 4096 (fun _ => True) ⟨none, -1 - n, 4096, false, 0, 1⟩ := by
  induction n with
  | zero => exact .construct (x := 0) (by decide) (by decide) (show Aptr.construct 0 1 = _ from rfl)
  | succ n ih =>
      have hcopy : FitsInt (4096 + (pageSize : Int)) := by decide
      have hmove : FitsInt (int32 (4096 + (pageSize : Int)) + -4096 * (1 : Nat)) := by decide
      have h := Built.move 1 (-4096) (Built.copy (ih (by omega)) hcopy trivial) hmove
      have hpage : int32 (-1 - (n : Int) - 1) = -1 - ((n + 1 : Nat) : Int) := by
        rw [int32_of_range (by omega) (by omega)]
        push_cast
        ring
      unfold Aptr.doCopy Aptr.move at h
      dsimp only at h
      rw [hpage] at h
      exact h

/-- `offset` だけが `int` に収まっていても、2^31 回の複写で `page` が折り返す。 -/
theorem page_underflow : ¬ AddrExact demoConfig demoGcm 4096 fun _ => True := by
  intro h
  have := h.copy _ (built_back 2147483647 (Nat.le_refl _)) (by decide) trivial
  revert this
  decide

/-! ## 比較 -/

theorem eq_base (h : a.eq b = true) : a.basePageIndex = b.basePageIndex := by
  unfold Aptr.eq at h
  rw [Bool.and_eq_true, decide_eq_true_eq] at h
  exact h.1.symm

theorem ne_eq_not (a b : Aptr) : a.ne b = !a.eq b := by
  unfold Aptr.ne Aptr.eq
  rw [Bool.not_and, ← decide_not, ← decide_not]

/-- `int` の値を持つ `Aptr` が自分自身と等しいのは、平らなとき、かつそのときに限る。 -/
theorem eq_self_iff (ho : FitsInt a.offset) (hp : FitsInt a.page) : a.eq a = true ↔ a.Flat := by
  obtain ⟨ho₁, ho₂⟩ := ho
  obtain ⟨hp₁, hp₂⟩ := hp
  unfold Aptr.eq Aptr.Flat
  rw [Bool.and_eq_true, decide_eq_true_eq, decide_eq_true_eq]
  unfold pageSize at *
  -- 折り返した和は、もう一方の辺と等しくならない。
  obtain ⟨hl, hl'⟩ | ⟨hl, hl'⟩ | ⟨hl, hl'⟩ := int32_cases (x := a.offset + a.page / (4096 : Nat)) (by omega) (by omega) <;>
  obtain ⟨hr, hr'⟩ | ⟨hr, hr'⟩ | ⟨hr, hr'⟩ := int32_cases (x := a.offset + a.page) (by omega) (by omega) <;>
    rw [hl, hr] <;> omega

/-- 平らな `Aptr` では、比較の両辺は折り返さず、どちらも `page / 4096 + offset` になる。 -/
theorem eq_iff_of_flat (ha : a.Flat) (hb : b.Flat) (hpa : FitsInt a.page) (hpb : FitsInt b.page)
    (h : a.basePageIndex = b.basePageIndex) :
    a.eq b = true ↔ a.page / pageSize + a.offset = b.page / pageSize + b.offset := by
  obtain ⟨ha₁, ha₂⟩ := hpa
  obtain ⟨hb₁, hb₂⟩ := hpb
  have hleft : int32 (b.offset + b.page / pageSize) = b.page / pageSize + b.offset := by
    unfold Aptr.Flat at hb
    rw [add_comm]
    unfold pageSize at *
    exact int32_of_range (by omega) (by omega)
  have hright : int32 (a.offset + a.page) / pageSize = a.page / pageSize + a.offset := by
    unfold Aptr.Flat at ha
    unfold pageSize at *
    rw [int32_of_range (by omega) (by omega)]
    omega
  unfold Aptr.eq
  rw [Bool.and_eq_true, decide_eq_true_eq, decide_eq_true_eq, hleft, hright]
  exact ⟨fun he => he.2.symm, fun he => ⟨h.symm, he.symm⟩⟩

/-- 同じ番地を指す平らな `Aptr` は、同じ `offset` と `page` を持つ。 -/
theorem flat_unique (ha : a.Flat) (hb : b.Flat) (h : a.basePageIndex = b.basePageIndex) (haddr : a.addr = b.addr) :
    a.offset = b.offset ∧ a.page = b.page := by
  unfold Aptr.Flat pageSize at ha hb
  unfold Aptr.addr pageSize at haddr
  omega

/-- 比較が番地の比較になるのは、どの `Aptr` も平らであり、同じ始まりから違う番地を指す `Aptr` の `page / 4096 + offset` が
異なるとき、かつそのときに限る。 -/
theorem eqLawful_iff {S : Set Aptr} (hints : ∀ a ∈ S, FitsInt a.offset ∧ FitsInt a.page) : EqLawful S ↔
    (∀ a ∈ S, a.Flat) ∧ ∀ a ∈ S, ∀ b ∈ S, a.basePageIndex = b.basePageIndex → a.addr ≠ b.addr →
      a.page / pageSize + a.offset ≠ b.page / pageSize + b.offset := by
  constructor
  · intro h
    have hflat (a : Aptr) (ha : a ∈ S) : a.Flat := (eq_self_iff (hints a ha).1 (hints a ha).2).mp (h.refl a ha)
    refine ⟨hflat, ?_⟩
    intro a ha b hb hbase hne heq
    have he := (eq_iff_of_flat (hflat a ha) (hflat b hb) (hints a ha).2 (hints b hb).2 hbase).mpr heq
    exact hne ((h.same a ha b hb hbase).mp he)
  · rintro ⟨hflat, hapart⟩
    have hsame {a b : Aptr} (ha : a ∈ S) (hb : b ∈ S) (hbase : a.basePageIndex = b.basePageIndex) :
        a.eq b = true ↔ a.addr = b.addr := by
      rw [eq_iff_of_flat (hflat a ha) (hflat b hb) (hints a ha).2 (hints b hb).2 hbase]
      constructor
      · intro heq
        by_contra hne
        exact hapart a ha b hb hbase hne heq
      · intro haddr
        obtain ⟨ho, hp⟩ := flat_unique (hflat a ha) (hflat b hb) hbase haddr
        rw [ho, hp]
    refine ⟨fun a ha b hb => hsame ha hb, fun a _ b _ => ne_eq_not a b, fun a ha => (hsame ha ha rfl).mpr rfl, ?_, ?_⟩
    · intro a ha b hb he
      exact (hsame hb ha (eq_base he).symm).mpr ((hsame ha hb (eq_base he)).mp he).symm
    · intro a ha b hb c hc h₁ h₂
      exact (hsame ha hc ((eq_base h₁).trans (eq_base h₂))).mpr
        (((hsame ha hb (eq_base h₁)).mp h₁).trans ((hsame hb hc (eq_base h₂)).mp h₂))

/-- ページ 0 の初め、ページ 4095 の 1 バイト目、ページ 8192 の初めを指す、つながった `Aptr`。 -/
def spreadAptrs : List Aptr := [⟨some 0, 0, 0, false, 0, 1⟩, ⟨some 1, 4095, 1, false, 0, 1⟩,
  ⟨some 2, 8192, 0, false, 0, 1⟩]

theorem eqLawful_iff_spread : EqLawful {a | a ∈ spreadAptrs} := by
  have hints : ∀ a ∈ spreadAptrs, FitsInt a.offset ∧ FitsInt a.page := by decide
  refine (eqLawful_iff hints).mpr ⟨?_, ?_⟩
  · show ∀ a ∈ spreadAptrs, a.Flat
    decide
  · show ∀ a ∈ spreadAptrs, ∀ b ∈ spreadAptrs, _
    decide

/-- 番地 16 の `Aptr` をつなぎ、別の `Aptr` に代入する。 -/
def assignOps : List Op := [.construct 16 256, .read 0, .construct 1024 128, .read 1, .assign 1 0]

/-- 代入のあとの二つの `Aptr` は同じ番地を指すが、`ptr2 == ptr1` は偽である。 -/
theorem assign_not_eqLawful : ∃ s a b, tightInit.run tightConfig demoGcm assignOps = .ok s ∧ s.get 0 = .ok a ∧
    s.get 1 = .ok b ∧ 0 ≤ a.basePageIndex ∧ a.basePageIndex = b.basePageIndex ∧ a.addr = b.addr ∧ b.eq a = false ∧
    ¬ EqLawful {c | some c ∈ s.aptrs ∧ 0 ≤ c.basePageIndex} := by
  refine ⟨_, _, _, rfl, rfl, rfl, by decide, rfl, by decide, by decide, ?_⟩
  intro h
  have := (h.same _ ⟨List.mem_cons_of_mem _ List.mem_cons_self, by decide⟩ _ ⟨List.mem_cons_self, by decide⟩ rfl).mpr
    (by decide)
  revert this
  decide

/-! ## 代入 -/

theorem doCopy_addr_iff (hi : a.Ints) (h₀ : 0 ≤ a.basePageIndex) :
    a.doCopy.addr = a.addr ↔ FitsInt (a.offset + pageSize) ∧ FitsInt (a.page - 1) := by
  obtain ⟨⟨h₁, h₂⟩, h₃, h₄⟩ := hi h₀
  unfold Aptr.doCopy Aptr.addr FitsInt int32 pageSize
  dsimp only
  omega

theorem doCopy_denotes_iff (hi : a.Ints) : a.doCopy.denotes = a.denotes ↔
    (0 ≤ a.basePageIndex → FitsInt (a.offset + pageSize) ∧ FitsInt (a.page - 1)) := by
  have hbase : a.doCopy.basePageIndex = a.basePageIndex := rfl
  unfold Aptr.denotes
  rw [hbase]
  by_cases h : a.basePageIndex < 0
  · rw [if_pos h, if_pos h]
    exact iff_of_true rfl fun h₀ => absurd h (Int.not_lt.mpr h₀)
  · have h₀ := Int.not_lt.mp h
    rw [if_neg h, if_neg h, Option.some.injEq, doCopy_addr_iff hi h₀]
    exact ⟨fun hf _ => hf, fun hf => hf h₀⟩

/-- 参照の数の変化が正しいのは、つながっていたページの数が 0 でないときである。 -/
theorem released_iff (r : Int → UInt8) (o : Option Int) :
    (∀ p, o = some p → (unlink r o p).toNat + 1 = (r p).toNat) ↔ ∀ p, o = some p → r p ≠ 0 := by
  refine forall_congr' fun p => forall_congr' fun hp => ?_
  subst hp
  show (Function.update r p (r p - 1) p).toNat + 1 = (r p).toNat ↔ r p ≠ 0
  rw [Function.update_self, UInt8.toNat_sub, ne_eq, ← UInt8.toNat_inj]
  have := (r p).toNat_lt
  show (2 ^ 8 - 1 + (r p).toNat) % 2 ^ 8 + 1 = (r p).toNat ↔ ¬ (r p).toNat = 0
  omega

theorem unlink_others (r : Int → UInt8) (o : Option Int) (p : Int) (h : o ≠ some p) : unlink r o p = r p := by
  cases o with
  | none => rfl
  | some q => exact Function.update_of_ne (fun he => h (congrArg some he.symm)) _ _

/-- 代入で写す `Aptr`。自分自身への代入では、`reset` のあとの空の値である。 -/
def assigned (dst src : Nat) (a b : Aptr) : Aptr :=
  if dst = src then { a with basePageIndex := -1, prmPtr := none } else b

theorem assign_step (h : Reach cfg G s) (ha : s.get dst = .ok a) (hb : s.get src = .ok b) :
    s.step cfg G id (.assign dst src) = .ok (Sys.set { s with state := s.state.unlink a.linkedPage? } dst
      (some (assigned dst src a b).doCopy)) := by
  have hp := h.pinned
  have hreset := hp.reset_eq ha
  have hlt := (List.getElem?_eq_some_iff.mp (Sys.get_ok_iff.mp ha)).1
  have hget : (Sys.set { s with state := s.state.unlink a.linkedPage? } dst
      (some { a with basePageIndex := -1, prmPtr := none })).get src = .ok (assigned dst src a b) := by
    rw [Sys.get_ok_iff]
    unfold assigned Sys.set
    by_cases hd : dst = src
    · subst hd
      rw [if_pos rfl]
      exact List.getElem?_set_self hlt
    · rw [if_neg hd]
      exact (List.getElem?_set_ne hd).trans (Sys.get_ok_iff.mp hb)
  refine bind_ok_iff.mpr ⟨a, ha, bind_ok_iff.mpr ⟨_, hreset, bind_ok_iff.mpr ⟨_, hget, ?_⟩⟩⟩
  unfold Sys.set
  dsimp only
  rw [List.set_set]

/-- 写した `Aptr` が右辺と同じ番地を指す条件。 -/
theorem assigned_denotes_iff (hb : b.Ints) :
    (assigned dst src a b).doCopy.denotes = b.denotes ↔ (dst ≠ src ∨ b.basePageIndex < 0) ∧
      (0 ≤ b.basePageIndex → FitsInt (b.offset + pageSize) ∧ FitsInt (b.page - 1)) := by
  unfold assigned
  by_cases hd : dst = src
  · have hnull : Aptr.denotes (Aptr.doCopy { a with basePageIndex := -1, prmPtr := none }) = none := rfl
    rw [if_pos hd, hnull]
    unfold Aptr.denotes
    by_cases hneg : b.basePageIndex < 0
    · rw [if_pos hneg]
      exact iff_of_true rfl ⟨Or.inr hneg, fun h₀ => absurd hneg (Int.not_lt.mpr h₀)⟩
    · rw [if_neg hneg]
      exact iff_of_false (fun h => nomatch h) fun h => h.1.elim (fun hne => hne hd) hneg
  · rw [if_neg hd, doCopy_denotes_iff hb]
    exact ⟨fun hf => ⟨Or.inl hd, hf⟩, fun hf => hf.2⟩

/-- 代入が正しいのは、左右が別のオブジェクトであるか右辺が空であり、右辺の複写が折り返さず、外す参照の数が 0 でないとき、かつそのときに限る。 -/
theorem assigns_iff (h : Reach cfg G s) (ha : s.get dst = .ok a) (hb : s.get src = .ok b) :
    (∃ s', s.step cfg G id (.assign dst src) = .ok s' ∧ s.Assigns s' dst src a b) ↔ s.Assignable dst src a b := by
  have hi : b.Ints := h.ints b (Sys.mem_of_get hb)
  have hlt := (List.getElem?_eq_some_iff.mp (Sys.get_ok_iff.mp ha)).1
  have hab : dst = src → a = b := by
    rintro rfl
    exact Except.ok.inj (ha.symm.trans hb)
  have hstep := assign_step h ha hb
  have hget : (Sys.set { s with state := s.state.unlink a.linkedPage? } dst
      (some (assigned dst src a b).doCopy)).get dst = .ok (assigned dst src a b).doCopy :=
    Sys.get_ok_iff.mpr (List.getElem?_set_self hlt)
  constructor
  · rintro ⟨s', hs', hsnd⟩
    cases hstep.symm.trans hs'
    obtain ⟨a', ha', hden, -⟩ := hsnd.target
    cases hget.symm.trans ha'
    obtain ⟨hd, hf⟩ := (assigned_denotes_iff hi).mp hden
    exact ⟨hd, hf, (released_iff _ _).mp hsnd.released⟩
  · intro hc
    have hden := (assigned_denotes_iff (a := a) hi).mpr ⟨hc.distinct, hc.fits⟩
    have hflags : (assigned dst src a b).doCopy.hintWrite = b.hintWrite ∧
        (assigned dst src a b).doCopy.size = b.size := by
      unfold assigned
      by_cases hd : dst = src
      · rw [if_pos hd, ← hab hd]
        exact ⟨rfl, rfl⟩
      · rw [if_neg hd]
        exact ⟨rfl, rfl⟩
    refine ⟨_, hstep, ⟨_, hget, hden, hflags⟩, ?_, (released_iff _ _).mpr hc.counted, unlink_others _ _⟩
    by_cases hd : dst = src
    · exact ⟨_, hd ▸ hget, hden⟩
    · exact ⟨b, Sys.get_ok_iff.mpr ((List.getElem?_set_ne hd).trans (Sys.get_ok_iff.mp hb)), rfl⟩

/-- 使い方の条件を満たす操作の列で到達できる。 -/
theorem Reach.run {ops : List Op} (h : Reach cfg G s) (ha : Admissible cfg G s ops) (hr : s.run cfg G ops = .ok s') :
    Reach cfg G s' := by
  induction ops generalizing s with
  | nil =>
      cases hr
      exact h
  | cons op ops ih =>
      obtain ⟨s₁, hs, hr⟩ := bind_ok_iff.mp hr
      exact ih (.step h ha.2.1 hs) (ha.2.2 s₁ hs) hr

/-- つながった `Aptr` と、別のページを指す `Aptr`。 -/
def linkOps : List Op := [.construct 16 256, .read 0, .construct 5000 128]

theorem assigns_iff_linked : ∃ s a b, tightInit.run tightConfig demoGcm linkOps = .ok s ∧ s.get 1 = .ok a ∧
    s.get 0 = .ok b ∧ ∃ s', s.step tightConfig demoGcm id (.assign 0 1) = .ok s' ∧ s.Assigns s' 0 1 b a := by
  have hops : Admissible tightConfig demoGcm tightInit linkOps := by decide +kernel
  have hinit : Reach tightConfig demoGcm tightInit := .init _ _ _ _
  refine ⟨_, _, _, rfl, rfl, rfl, ?_⟩
  refine (assigns_iff (hinit.run hops rfl) rfl rfl).mpr ⟨Or.inl (by decide), ?_, ?_⟩
  · exact fun _ => ⟨by decide, by decide⟩
  · rintro p ⟨⟩
    decide

/-- 自分自身に代入した `Aptr` は空になる。 -/
theorem selfAssign_null : ∃ s s' a a', tightInit.run tightConfig demoGcm [.construct 16 256, .read 0] = .ok s ∧
    s.get 0 = .ok a ∧ a.denotes = some 16 ∧ s.step tightConfig demoGcm id (.assign 0 0) = .ok s' ∧
    s'.get 0 = .ok a' ∧ a'.denotes = none ∧
    ¬ ∃ s', s.step tightConfig demoGcm id (.assign 0 0) = .ok s' ∧ s.Assigns s' 0 0 a a := by
  refine ⟨_, _, _, _, rfl, rfl, by decide, rfl, rfl, by decide, ?_⟩
  rintro ⟨s', hs', h⟩
  cases hs'
  obtain ⟨a', ha', hd, -⟩ := h.target
  cases ha'
  revert hd
  decide

/-! ## `g_slab` の枠 -/

theorem gSlab_toNat (r : BitVec 64) : (gSlab r).toNat = r.toNat / pageSize * pageSize := by
  have hmask (i : Nat) (hi : i < 64) : (0xFFF#64).getLsbD i = decide (i < 12) := by
    have : ∀ i : Fin 64, (0xFFF#64).getLsbD i.val = decide (i.val < 12) := by decide
    exact this ⟨i, hi⟩
  have hshift : gSlab r = r >>> 12 <<< 12 := by
    unfold gSlab
    ext i hi
    rw [BitVec.getElem_and, BitVec.getElem_not, BitVec.getElem_shiftLeft, ← BitVec.getLsbD_eq_getElem hi,
      ← BitVec.getLsbD_eq_getElem hi, hmask i hi]
    by_cases h : i < 12
    · simp [h]
    · simp [h, show 12 + (i - 12) = i by omega]
  rw [hshift, BitVec.toNat_shiftLeft, BitVec.toNat_ushiftRight, Nat.shiftLeft_eq, Nat.shiftRight_eq_div_pow]
  have := r.isLt
  unfold pageSize
  omega

theorem untag_mask {v : BitVec 64} (h : v.toNat % 2 = 0) : v &&& 0xFFFFFFFFFFFFFFFE#64 = v ∧
    (v ||| 1#64) &&& 0xFFFFFFFFFFFFFFFE#64 = v := by
  have hmask (i : Nat) (hi : i < 64) : (0xFFFFFFFFFFFFFFFE#64).getLsbD i = decide (0 < i) ∧
      (1#64).getLsbD i = decide (i = 0) := by
    have : ∀ i : Fin 64, (0xFFFFFFFFFFFFFFFE#64).getLsbD i.val = decide (0 < i.val) ∧
        (1#64).getLsbD i.val = decide (i.val = 0) := by decide
    exact this ⟨i, hi⟩
  have h0 : v.getLsbD 0 = false := by
    rw [BitVec.getLsbD, Nat.testBit_zero, h]
    rfl
  constructor
  · apply BitVec.eq_of_getLsbD_eq
    intro i hi
    rw [BitVec.getLsbD_and, (hmask i hi).1]
    cases i with
    | zero => rw [h0]; rfl
    | succ i => simp
  · apply BitVec.eq_of_getLsbD_eq
    intro i hi
    rw [BitVec.getLsbD_and, BitVec.getLsbD_or, (hmask i hi).1, (hmask i hi).2]
    cases i with
    | zero => rw [h0]; rfl
    | succ i => simp

section Slab

variable {r : BitVec 64} {capacity i : Nat} (hr : r.toNat + slabSize capacity ≤ 2 ^ 64)

include hr

theorem epcSlot_toNat (hi : i < capacity) : (epcSlot r i).toNat = r.toNat / pageSize * pageSize + i * pageSize := by
  unfold epcSlot
  rw [BitVec.toNat_add, BitVec.toNat_ofNat, gSlab_toNat]
  unfold slabSize pageSize at *
  omega

/-- ページの管理で使う枠の番地に一致する。 -/
theorem epcSlot_eq_slot (hcap : cfg.cacheCapacity = capacity) (hptr : cfg.slabPtr = r.toNat)
    (hi : i < cfg.cacheCapacity) : (epcSlot r i).toNat = cfg.slot i := by
  rw [epcSlot_toNat hr (hcap ▸ hi), Config.slot, Config.slab, hptr]

/-- 枠の番地の条件が成り立つのは、`malloc` の返す番地がページの境目にあるとき、かつそのときに限る。 -/
theorem slabSound_iff (hcap : 0 < capacity) : SlabSound r capacity ↔ r.toNat % pageSize = 0 := by
  constructor
  · intro h
    obtain ⟨hlo, -⟩ := h.inside 0 hcap
    rw [epcSlot_toNat hr hcap] at hlo
    unfold pageSize at *
    omega
  · intro hmod
    have heven {i : Nat} (hi : i < capacity) : (epcSlot r i).toNat % 2 = 0 := by
      rw [epcSlot_toNat hr hi]
      unfold pageSize
      omega
    refine ⟨?_, ?_, ?_, ?_⟩
    · intro i hi
      rw [epcSlot_toNat hr hi]
      unfold pageSize
      omega
    · intro i hi o
      obtain ⟨h₁, h₂⟩ := untag_mask (heven hi)
      refine ⟨?_, ?_, ?_⟩
      · apply BitVec.eq_of_toNat_eq
        rw [BitVec.toNat_and]
        show (epcSlot r i).toNat &&& 1 = 0
        rw [Nat.and_one_is_mod]
        exact heven hi
      · unfold untag
        rw [h₁]
      · unfold untag tagged
        rw [h₂]
    · intro i hi j hj hne
      rw [epcSlot_toNat hr hi, epcSlot_toNat hr hj]
      unfold pageSize
      omega
    · intro i hi
      rw [epcSlot_toNat hr hi]
      unfold slabSize pageSize at *
      omega

end Slab

theorem slabSound_iff_aligned : SlabSound 0x7f0000000000#64 16384 :=
  (slabSound_iff (by decide) (by decide)).mpr (by decide)

/-- ページの境目にない番地では、最初の枠が確保した領域の前から始まる。 -/
theorem slab_unaligned : (epcSlot 0x7f0000001010#64 0).toNat = 0x7f0000001000 ∧
    ¬ SlabSound 0x7f0000001010#64 16384 := by
  refine ⟨by decide, ?_⟩
  intro h
  have := (h.inside 0 (by decide)).1
  revert this
  decide

end Eleos.Pager
