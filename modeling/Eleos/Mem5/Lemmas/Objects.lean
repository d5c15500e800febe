import Eleos.Mem5.Lemmas.Foreign
import Eleos.Mem5.Objects

/-!
# 領域に置いたデータの不変条件
-/

namespace Eleos.Mem5

open Mem5Global

variable {m : Mem5Global} {s : Arena} {a c : Alloc} {n x y : Int}

/-! ## 大きさ -/

theorem roundFullSz_ok {sz : Int} {fuel j r : Nat} (hn : n ≤ 1073741824) (hs : 0 < sz)
    (h : roundLogsize n fuel (sz * 2 ^ j) j = .ok r) : roundFullSz n fuel (sz * 2 ^ j) = .ok (sz * 2 ^ r) := by
  induction fuel generalizing j with
  | zero => cases h
  | succ fuel ih =>
      unfold roundLogsize at h
      unfold roundFullSz
      by_cases hlt : sz * 2 ^ j < n
      · have h₁ : 0 < sz * 2 ^ j := Int.mul_pos hs (two_pow_pos j)
        have h₂ : int32 (sz * 2 ^ j * 2) = sz * 2 ^ (j + 1) := by
          rw [int32_of_range (by omega) (by omega), pow_succ, mul_assoc]
        rw [if_pos hlt, h₂] at h ⊢
        exact ih h
      · rw [if_neg hlt] at h ⊢
        cases h
        rfl

/-- 切り上げた大きさは、割り当てが使う大きさである。 -/
theorem memsys5Roundup_ok (hs : 0 < m.szAtom) (hn : n ≤ 1073741824) :
    memsys5Roundup m n = .ok (m.szAtom * 2 ^ logOf m.szAtom n) := by
  have hround := (logOf_spec hn hs).1
  have hfull := roundFullSz_ok (j := 0) hn hs (by rw [pow_zero, mul_one]; exact hround)
  rw [pow_zero, mul_one] at hfull
  rw [memsys5Roundup, if_neg (by omega), hfull]

theorem logOf_mul {sz : Int} {k : Nat} (hs : 0 < sz) (hle : sz * 2 ^ k ≤ 1073741824) : logOf sz (sz * 2 ^ k) = k := by
  obtain ⟨_, hlo, hhi⟩ := logOf_spec hle hs
  have hkr : (2 : Int) ^ k ≤ 2 ^ logOf sz (sz * 2 ^ k) := le_of_mul_le_mul_left hlo hs
  have hk : k ≤ logOf sz (sz * 2 ^ k) := (pow_le_pow_iff_right₀ (by decide : (1 : Int) < 2)).mp hkr
  by_contra hne
  have hlt := lt_of_mul_lt_mul_left (hhi (by omega)) (by omega)
  have := (pow_lt_pow_iff_right₀ (by decide : (1 : Int) < 2)).mp hlt
  omega

namespace Arena

theorem Sound.atom_pos (h : Sound m s) : 0 < s.mem.szAtom := by
  obtain ⟨free, hh⟩ := h.heap
  have hA := hh.layout.fits.atom
  omega

/-- 割り当てた領域は、プールに収まる。 -/
theorem Sound.bounds (h : Sound m s) (ha : a ∈ s.live) :
    0 ≤ a.ptr ∧ a.ptr + a.size s.mem.szAtom ≤ s.mem.nBlock * s.mem.szAtom := by
  obtain ⟨free, hh⟩ := h.heap
  have hA := hh.layout.fits.atom
  obtain ⟨h₀, h₁⟩ := hh.layout.tiling.inside _ (Or.inl (Or.inr ⟨a, ha, rfl⟩))
  have hp := h.ptr a ha
  have hmul := Int.mul_le_mul_of_nonneg_right h₁ (show 0 ≤ s.mem.szAtom by omega)
  have h₂ := hh.layout.fits.mul_nonneg h₀
  have hsize : (a.block s.mem.szAtom).stop * s.mem.szAtom = a.ptr + a.size s.mem.szAtom := by
    rw [hp, Block.stop, add_mul, Alloc.size, mul_comm s.mem.szAtom]
    rfl
  omega

/-- `memsys5Size` は、割り当てた領域の大きさを返す。 -/
theorem Sound.memsys5Size (h : Sound m s) (ha : a ∈ s.live) :
    memsys5Size s.mem (some a.ptr) = .ok (a.size s.mem.szAtom) := by
  obtain ⟨free, hh⟩ := h.heap
  have hf := hh.layout.fits
  have hfree := hh.layout.freeable (i := (a.block s.mem.szAtom).start) (k := (a.block s.mem.szAtom).log) ⟨a, ha, rfl⟩
  have hb := h.bounds ha
  have hA := h.atom_pos
  have hpos := two_pow_pos (logOf s.mem.szAtom a.nByte)
  have hk := hf.log_lt hfree.mem.1 hfree.last
  have hlt : (2 : Int) ^ logOf s.mem.szAtom a.nByte ≤ 2 ^ 27 := two_pow_le (Nat.le_of_lt_succ hk)
  have hs := hf.size
  have hsize : a.size s.mem.szAtom = s.mem.szAtom * 2 ^ logOf s.mem.szAtom a.nByte := rfl
  have hmul := Int.mul_pos hA hpos
  rw [← h.ptr a ha] at hfree
  simp only [Mem5.memsys5Size, hfree.index, check, onCtrl_in hf hfree.mem, hfree.log, Bind.bind, Except.bind]
  rw [if_pos ⟨hfree.mem.1, hfree.mem.2⟩]
  have h₁ : int32 (2 ^ (a.block s.mem.szAtom).log) = 2 ^ logOf s.mem.szAtom a.nByte :=
    int32_of_range (by change _ ≤ (2 : Int) ^ logOf _ _; omega) (by change (2 : Int) ^ logOf _ _ < _; omega)
  rw [h₁, int32_of_range (by omega) (by omega), hsize]

/-- 領域のバイトは、そのブロックの中にある。 -/
theorem Sound.byte_in (h : Sound m s) (ha : a ∈ s.live) (hx : 0 ≤ x ∧ x < a.size s.mem.szAtom) :
    (a.block s.mem.szAtom).start * s.mem.szAtom ≤ a.ptr + x ∧
      a.ptr + x < (a.block s.mem.szAtom).stop * s.mem.szAtom := by
  have hp := h.ptr a ha
  have hsize : a.size s.mem.szAtom = s.mem.szAtom * 2 ^ (a.block s.mem.szAtom).log := rfl
  rw [Block.stop, add_mul, ← hp, mul_comm (2 ^ _), ← hsize]
  omega

/-- 異なる領域のバイトは異なる。 -/
theorem Sound.byte_inj (h : Sound m s) (ha : a ∈ s.live) (hc : c ∈ s.live) (hx : 0 ≤ x ∧ x < a.size s.mem.szAtom)
    (hy : 0 ≤ y ∧ y < c.size s.mem.szAtom) (heq : a.ptr + x = c.ptr + y) : a = c := by
  obtain ⟨free, hh⟩ := h.heap
  have hA := h.atom_pos
  -- 同じバイトを含む単位は、両方のブロックに入る。
  have hhas {d : Alloc} {z : Int} (hd : d ∈ s.live) (hz : 0 ≤ z ∧ z < d.size s.mem.szAtom) :
      (d.block s.mem.szAtom).Has ((d.ptr + z) / s.mem.szAtom) := by
    obtain ⟨h₁, h₂⟩ := h.byte_in hd hz
    exact ⟨(Int.le_ediv_iff_mul_le hA).mpr h₁, (Int.ediv_lt_iff_lt_mul hA).mpr h₂⟩
  have hblock := hh.layout.tiling.disjoint _ (Or.inl (Or.inr ⟨a, ha, rfl⟩)) _ (Or.inl (Or.inr ⟨c, hc, rfl⟩)) _
    (hhas ha hx) (heq ▸ hhas hc hy)
  exact List.inj_on_of_nodup_map h.nodup ha hc hblock

theorem Sound.ptr_inj (h : Sound m s) (ha : a ∈ s.live) (hc : c ∈ s.live) (heq : a.ptr = c.ptr) : a = c := by
  have hA := h.atom_pos
  have hpos (d : Alloc) : 0 < d.size s.mem.szAtom := Int.mul_pos hA (two_pow_pos _)
  exact h.byte_inj ha hc ⟨le_rfl, hpos a⟩ ⟨le_rfl, hpos c⟩ (by rw [heq])

/-- 割り当てと解放は、残る領域のバイトを変えない。 -/
theorem Sound.spared {m' : Mem5Global} {L : Set Block} (h : Sound m s) (hst : s.mem.Steady m' L) (ha : a ∈ s.live)
    (hL : a.block s.mem.szAtom ∈ L) (hx : 0 ≤ x ∧ x < a.size s.mem.szAtom) :
    m'.zPool (a.ptr + x).toNat = s.mem.zPool (a.ptr + x).toNat := by
  have hp := (h.bounds ha).1
  apply hst.spares
  rw [Int.toNat_of_nonneg (by omega)]
  exact ⟨_, hL, h.byte_in ha hx⟩

/-- 一つの領域の中への書き込み。 -/
theorem Sound.stored {z : Memory} (h : Sound m s) (ha : a ∈ s.live)
    (hz : ∀ i : Nat, z i ≠ s.mem.zPool i → ∃ x, (0 ≤ x ∧ x < a.size s.mem.szAtom) ∧ (i : Int) = a.ptr + x) :
    Sound m ⟨{ s.mem with zPool := z }, s.live⟩ := by
  apply Sound.filled h
  intro i hi
  obtain ⟨x, hx, heq⟩ := hz i hi
  rw [heq]
  exact ⟨_, ⟨a, ha, rfl⟩, h.byte_in ha hx⟩

/-- 2 のべきは、`memsys5Realloc` の初めの検査を通る。 -/
theorem pow_and_pred {j : Nat} (h : j ≤ 30) : BitVec.ofInt 32 (2 ^ j) &&& BitVec.ofInt 32 (2 ^ j - 1) = 0 := by
  interval_cases j <;> decide

/-- 切り上げた大きさは `2 ^ 30` を越えない。 -/
theorem Sound.round_le {j : Nat} (h : Sound m s) (hj : s.mem.szAtom = 2 ^ j) (ha : a ∈ s.live) (hn : n ≤ 1073741824) :
    j + logOf s.mem.szAtom n ≤ 30 := by
  obtain ⟨free, hh⟩ := h.heap
  have hpow {i e : Nat} (hi : (2 : Int) ^ i < 2 ^ e) : i < e :=
    (pow_lt_pow_iff_right₀ (by decide : (1 : Int) < 2)).mp hi
  obtain hlog | hlog := Nat.eq_zero_or_pos (logOf s.mem.szAtom n)
  · have hb := h.bounds ha
    have hsize := hh.layout.fits.size
    have hpos := two_pow_pos (logOf s.mem.szAtom a.nByte)
    have hle : s.mem.szAtom * 1 ≤ a.size s.mem.szAtom := Int.mul_le_mul_of_nonneg_left (by omega) h.atom_pos.le
    have hlt : (2 : Int) ^ j < 2 ^ 31 := by
      rw [← hj]
      omega
    have := hpow hlt
    omega
  · have hlt := (logOf_spec hn h.atom_pos).2.2 hlog
    rw [hj, ← pow_add, ← hj] at hlt
    have hlt' : (2 : Int) ^ (j + (logOf s.mem.szAtom n - 1)) < 2 ^ 30 := by omega
    have := hpow hlt'
    omega

theorem memcpy_apply {z : Memory} {d src k : Int} {i : Nat} (h : d ≤ i ∧ i < d + k) :
    memcpy z d src k i = z (i - d + src).toNat := if_pos h

theorem memcpy_of_apart {z : Memory} {d src k : Int} {i : Nat} (h : ¬ (d ≤ i ∧ i < d + k)) :
    memcpy z d src k i = z i := if_neg h

/-- `memsys5Realloc` の結果。領域はそのままか、中身とともに新しい所に移る。 -/
structure Moved (m : Mem5Global) (s : Arena) (a : Alloc) (m' : Mem5Global) (b : Alloc) : Prop where
  fresh : ∀ c ∈ s.live, c.ptr ≠ b.ptr
  sound : Sound m ⟨m', b :: s.live.erase a⟩
  szAtom : m'.szAtom = s.mem.szAtom
  grows : a.size s.mem.szAtom ≤ b.size s.mem.szAtom
  copied : ∀ x, 0 ≤ x ∧ x < a.size s.mem.szAtom → m'.zPool (b.ptr + x).toNat = s.mem.zPool (a.ptr + x).toNat
  spared : ∀ c ∈ s.live, c ≠ a → ∀ x, 0 ≤ x ∧ x < c.size s.mem.szAtom →
    m'.zPool (c.ptr + x).toNat = s.mem.zPool (c.ptr + x).toNat

/-- 新しい領域に写し、もとの領域を解放する。 -/
theorem Sound.relocate {m₁ : Mem5Global} {b : Alloc} (h : Sound m s) (ha : a ∈ s.live)
    (h₁ : Sound m ⟨m₁, b :: s.live⟩) (hst : s.mem.Steady m₁ s.liveBlocks)
    (hgrow : a.size s.mem.szAtom ≤ b.size s.mem.szAtom) :
    ∃ m', memsys5Free { m₁ with zPool := memcpy m₁.zPool b.ptr a.ptr (a.size s.mem.szAtom) } (some a.ptr) = .ok m' ∧
      Moved m s a m' b := by
  have hb : b ∈ b :: s.live := List.mem_cons_self
  have ha' : a ∈ b :: s.live := List.mem_cons_of_mem b ha
  have hnew : b ∉ s.live := (List.nodup_cons.mp (List.Nodup.of_map _ h₁.nodup)).1
  have hne : b ≠ a := by
    rintro rfl
    exact hnew ha
  have hbp := h₁.bounds hb
  have hsz : m₁.szAtom = s.mem.szAtom := hst.szAtom
  dsimp only at hbp
  rw [hsz] at hbp
  have h₂ : Sound m ⟨{ m₁ with zPool := memcpy m₁.zPool b.ptr a.ptr (a.size s.mem.szAtom) }, b :: s.live⟩ := by
    apply h₁.stored hb
    intro i hi
    have hin : b.ptr ≤ i ∧ i < b.ptr + a.size s.mem.szAtom := by
      by_contra hout
      exact hi (memcpy_of_apart hout)
    dsimp only
    rw [hsz]
    exact ⟨i - b.ptr, ⟨by omega, by omega⟩, by omega⟩
  obtain ⟨m', he, hs, hst'⟩ := h₂.free ha'
  -- 解放は、ほかの領域のバイトを変えない。
  have hkeep {c : Alloc} (hc : c ∈ b :: s.live) (hca : c ≠ a) {x : Int} (hx : 0 ≤ x ∧ x < c.size s.mem.szAtom) :
      m'.zPool (c.ptr + x).toNat = memcpy m₁.zPool b.ptr a.ptr (a.size s.mem.szAtom) (c.ptr + x).toNat := by
    rw [← hsz] at hx
    refine h₂.spared hst' hc ⟨⟨c, hc, rfl⟩, fun heq => hca ?_⟩ hx
    exact List.inj_on_of_nodup_map h₂.nodup hc ha' heq
  refine ⟨m', he, ?_, ?_, hst'.szAtom.trans hsz, hgrow, ?_, ?_⟩
  · intro c hc heq
    exact hnew (h₁.ptr_inj (List.mem_cons_of_mem b hc) hb heq ▸ hc)
  · have herase : (b :: s.live).erase a = b :: s.live.erase a := List.erase_cons_tail (by simpa using hne)
    rw [← herase]
    exact hs
  · intro x hx
    have hsrc : ((b.ptr + x).toNat : Int) - b.ptr + a.ptr = a.ptr + x := by omega
    rw [hkeep hb hne ⟨hx.1, hx.2.trans_le hgrow⟩, memcpy_apply ⟨by omega, by omega⟩, hsrc]
    exact h.spared hst ha ⟨a, ha, rfl⟩ hx
  · intro c hc hca x hx
    have hc' : c ∈ b :: s.live := List.mem_cons_of_mem b hc
    have hcp := h.bounds hc
    rw [hkeep hc' hca hx, memcpy_of_apart]
    · exact h.spared hst hc ⟨c, hc, rfl⟩ hx
    · -- 写した先は、新しい領域だけである。
      rintro ⟨hlo, hhi⟩
      have hcb : c = b := by
        refine h₁.byte_inj (x := x) (y := c.ptr + x - b.ptr) hc' hb ?_ ?_ (by omega)
        · rw [← hsz] at hx
          exact hx
        · dsimp only
          rw [hsz]
          omega
      exact hnew (hcb ▸ hc)

/-- `memsys5Realloc` は、領域をそのままにするか、中身を新しい領域に移す。 -/
theorem Sound.realloc {j : Nat} (h : Sound m s) (hj : s.mem.szAtom = 2 ^ j) (ha : a ∈ s.live) (n : Int) :
    ∃ N m' r, memsys5Roundup s.mem n = .ok N ∧ memsys5Realloc s.mem (some a.ptr) N = .ok (m', r) ∧
      (m' = s.mem ∧ (r = none ∨ r = some a.ptr) ∨ ∃ p, r = some p ∧ Moved m s a m' ⟨p, N⟩) := by
  have hA := h.atom_pos
  by_cases hbig : n ≤ 1073741824
  · have hround := memsys5Roundup_ok hA hbig
    have hN : s.mem.szAtom * 2 ^ logOf s.mem.szAtom n = 2 ^ (j + logOf s.mem.szAtom n) := by rw [hj, pow_add]
    have hle := h.round_le hj ha hbig
    have hle' : (2 : Int) ^ (j + logOf s.mem.szAtom n) ≤ 2 ^ 30 := two_pow_le hle
    have hpos := two_pow_pos (j + logOf s.mem.szAtom n)
    have hmul := logOf_mul (k := logOf s.mem.szAtom n) hA (by omega)
    rw [hN] at hround hmul
    have hand := pow_and_pred hle
    generalize (2 : Int) ^ (j + logOf s.mem.szAtom n) = N at *
    have hsize := h.memsys5Size ha
    by_cases hfit : N ≤ a.size s.mem.szAtom
    · refine ⟨N, s.mem, some a.ptr, hround, ?_, Or.inl ⟨rfl, Or.inr rfl⟩⟩
      simp [memsys5Realloc, check, hand, hpos.le, hpos.ne', hsize, hfit, Bind.bind, Except.bind]
    · obtain ⟨m₁, r, he, hnone, hsome⟩ := h.malloc hpos (n := N) (by omega)
      cases r with
      | none =>
          obtain ⟨rfl, _⟩ := hnone rfl
          refine ⟨N, s.mem, none, hround, ?_, Or.inl ⟨rfl, Or.inl rfl⟩⟩
          simp [memsys5Realloc, check, hand, hpos.le, hpos.ne', hsize, hfit, he, Bind.bind, Except.bind]
      | some p =>
          obtain ⟨h₁, hst⟩ := hsome p rfl
          have hgrow : a.size s.mem.szAtom ≤ (⟨p, N⟩ : Alloc).size s.mem.szAtom := by
            have hsize : (⟨p, N⟩ : Alloc).size s.mem.szAtom = N := by rw [Alloc.size, hmul, hN]
            omega
          obtain ⟨m', hf, hm⟩ := h.relocate ha h₁ hst hgrow
          refine ⟨N, m', some p, hround, ?_, Or.inr ⟨p, rfl, hm⟩⟩
          simp [memsys5Realloc, check, hand, hpos.le, hpos.ne', hsize, hfit, he, hf, Bind.bind, Except.bind]
  · have hround : memsys5Roundup s.mem n = .ok 0 := if_pos (by omega)
    exact ⟨0, s.mem, none, hround, rfl, Or.inl ⟨rfl, Or.inl rfl⟩⟩

end Arena

/-! ## 一つの呼び出し -/

namespace Objects

variable {t t' : Objects} {w : Int → Nat → Option UInt8} {p q r : Int} {off : Nat} {v : UInt8}

theorem clear_eq_some : clear w p q off = some v ↔ q ≠ p ∧ w q off = some v := by
  by_cases h : q = p
  · simp [clear, h]
  · simp [clear, h]

/-- 不変条件。 -/
structure Sound (m : Mem5Global) (t : Objects) : Prop where
  arena : Arena.Sound m t.arena
  kept : t.Kept

theorem Sound.malloc (h : t.Sound m) (hpos : 0 < n) (hn : n ≤ 1073741824) :
    ∃ t', t.step (.malloc n) = .ok t' ∧ t'.Sound m := by
  obtain ⟨m', r, he, hnone, hsome⟩ := h.arena.malloc hpos hn
  cases r with
  | none =>
      obtain ⟨rfl, _⟩ := hnone rfl
      exact ⟨t, bind_ok_iff.mpr ⟨_, he, rfl⟩, h⟩
  | some p =>
      obtain ⟨hs, hst⟩ := hsome p rfl
      refine ⟨_, bind_ok_iff.mpr ⟨_, he, rfl⟩, hs, ?_⟩
      intro a ha off v hv
      obtain ⟨hne, hv⟩ := clear_eq_some.mp hv
      obtain ha := (List.mem_cons.mp ha).resolve_left fun heq => hne (by rw [heq])
      obtain ⟨hoff, hz⟩ := h.kept a ha off v hv
      dsimp only
      rw [hst.szAtom, h.arena.spared hst ha ⟨a, ha, rfl⟩ ⟨by omega, hoff⟩]
      exact ⟨hoff, hz⟩

theorem Sound.free (h : t.Sound m) (ha : a ∈ t.arena.live) : ∃ t', t.step (.free a) = .ok t' ∧ t'.Sound m := by
  obtain ⟨m', he, hs, hst⟩ := h.arena.free ha
  refine ⟨_, bind_ok_iff.mpr ⟨_, he, rfl⟩, hs, ?_⟩
  intro c hc off v hv
  obtain ⟨hne, hv⟩ := clear_eq_some.mp hv
  have hc := List.mem_of_mem_erase hc
  obtain ⟨hoff, hz⟩ := h.kept c hc off v hv
  have hblock : c.block t.arena.mem.szAtom ∈ t.arena.liveBlocks \ {a.block t.arena.mem.szAtom} := by
    refine ⟨⟨c, hc, rfl⟩, ?_⟩
    intro heq
    exact hne (congrArg Alloc.ptr (List.inj_on_of_nodup_map h.arena.nodup hc ha heq))
  dsimp only
  rw [hst.szAtom, h.arena.spared hst hc hblock ⟨by omega, hoff⟩]
  exact ⟨hoff, hz⟩

theorem Sound.write (h : t.Sound m) (ha : a ∈ t.arena.live) (hoff : off < a.size t.arena.mem.szAtom) :
    ∃ t', t.step (.write a off v) = .ok t' ∧ t'.Sound m := by
  have hp := (h.arena.bounds ha).1
  refine ⟨_, rfl, h.arena.stored ha ?_, ?_⟩
  · intro i hi
    have heq : i = (a.ptr + off).toNat := by
      by_contra hne
      exact hi (Function.update_of_ne hne ..)
    exact ⟨off, ⟨by omega, hoff⟩, by omega⟩
  · intro c hc off' v' hv
    dsimp only at hc hv ⊢
    by_cases hca : c = a
    · subst hca
      by_cases ho : off' = off
      · subst ho
        simp only [put, Function.update_self, Option.some.injEq] at hv
        rw [Function.update_self]
        exact ⟨hoff, hv⟩
      · simp only [put, Function.update_self, Function.update_of_ne ho] at hv
        rw [Function.update_of_ne (by omega)]
        exact h.kept c hc off' v' hv
    · have hptr : c.ptr ≠ a.ptr := fun heq => hca (h.arena.ptr_inj hc ha heq)
      rw [put, Function.update_of_ne hptr] at hv
      obtain ⟨hoff', hz⟩ := h.kept c hc off' v' hv
      have hpc := (h.arena.bounds hc).1
      have hne : (c.ptr + off').toNat ≠ (a.ptr + off).toNat := by
        intro heq
        exact hca (h.arena.byte_inj hc ha ⟨by omega, hoff'⟩ ⟨by omega, hoff⟩ (by omega))
      rw [Function.update_of_ne hne]
      exact ⟨hoff', hz⟩

theorem Sound.realloc {j : Nat} (h : t.Sound m) (hj : t.arena.mem.szAtom = 2 ^ j) (ha : a ∈ t.arena.live) :
    ∃ t', t.step (.realloc a n) = .ok t' ∧ t'.Sound m := by
  obtain ⟨N, m', r, hround, he, ⟨rfl, rfl | rfl⟩ | ⟨p, rfl, hm⟩⟩ := h.arena.realloc hj ha n
  · exact ⟨t, bind_ok_iff.mpr ⟨_, hround, bind_ok_iff.mpr ⟨_, he, rfl⟩⟩, h⟩
  · exact ⟨t, bind_ok_iff.mpr ⟨_, hround, bind_ok_iff.mpr ⟨_, he, if_pos rfl⟩⟩, h⟩
  · refine ⟨_, bind_ok_iff.mpr ⟨_, hround, bind_ok_iff.mpr ⟨_, he, if_neg (hm.fresh a ha).symm⟩⟩, hm.sound, ?_⟩
    intro c hc off v hv
    dsimp only at hc hv ⊢
    rw [hm.szAtom]
    rcases List.mem_cons.mp hc with rfl | hc'
    · rw [move, Function.update_self] at hv
      obtain ⟨hoff, hz⟩ := h.kept a ha off v hv
      dsimp only
      rw [hm.copied off ⟨by omega, hoff⟩]
      exact ⟨hoff.trans_le hm.grows, hz⟩
    · have hcl := List.mem_of_mem_erase hc'
      rw [move, Function.update_of_ne (hm.fresh c hcl)] at hv
      obtain ⟨hca, hv⟩ := clear_eq_some.mp hv
      obtain ⟨hoff, hz⟩ := h.kept c hcl off v hv
      rw [hm.spared c hcl (fun heq => hca (by rw [heq])) off ⟨by omega, hoff⟩]
      exact ⟨hoff, hz⟩

/-- 前提を満たす呼び出しは、検査で止まらず、不変条件を保つ。 -/
theorem Sound.step {j : Nat} {op : Op} (h : t.Sound m) (hj : m.szAtom = 2 ^ j) (hg : t.Guard op) :
    ∃ t', t.step op = .ok t' ∧ t'.Sound m := by
  cases op with
  | malloc n => exact h.malloc hg.1 hg.2
  | free a => exact h.free hg
  | realloc a n => exact h.realloc (h.arena.szAtom.trans hj) hg
  | write a off v => exact h.write hg.1 hg.2

theorem Reach.sound {f : Nat → List Int} {j : Nat} (hm : m.Heap f ∅) (hj : m.szAtom = 2 ^ j) (h : Reach m t) :
    t.Sound m := by
  induction h with
  | init => exact ⟨Arena.init_sound hm, fun _ ha => (nomatch ha)⟩
  | step _ hg hs ih =>
      obtain ⟨t', hs', h'⟩ := ih.step hj hg
      cases hs.symm.trans hs'
      exact h'

/-- 前提を満たす呼び出しの列は、到達できる状態を保つ。 -/
theorem Reach.run {ops : List Op} (h : Reach m t) (hg : t.Guarded ops) (hr : t.run ops = .ok t') : Reach m t' := by
  induction ops generalizing t with
  | nil =>
      cases hr
      exact h
  | cons op ops ih =>
      obtain ⟨u, hu, hr⟩ := bind_ok_iff.mp hr
      exact ih (h.step hg.1 hu) (hg.2 u hu) hr

/-! ## 空きの有無 -/

/-- 割り当ては、重ならない並びがあるとき、かつそのときに限り成功する。 -/
theorem Sound.malloc_iff (h : t.Sound m) (hpos : 0 < n) (hn : n ≤ 1073741824) :
    (∃ m' p, memsys5Malloc t.arena.mem n = .ok (m', some p)) ↔ t.Room (logOf t.arena.mem.szAtom n) := by
  obtain ⟨m', r, he, hnone, hsome⟩ := h.arena.malloc hpos hn
  constructor
  · rintro ⟨_, p, he'⟩
    cases he.symm.trans he'
    obtain ⟨hs, hst⟩ := hsome p rfl
    obtain ⟨free, hh⟩ := hs.heap
    have hmem : (⟨p, n⟩ : Alloc).block t.arena.mem.szAtom ∈ (⟨m', ⟨p, n⟩ :: t.arena.live⟩ : Arena).liveBlocks :=
      ⟨_, List.mem_cons_self, by rw [hst.szAtom]⟩
    obtain ⟨h₀, h₁⟩ := hh.layout.tiling.inside _ (Or.inl (Or.inr hmem))
    refine ⟨_, rfl, hh.layout.tiling.aligned _ (Or.inl (Or.inr hmem)), h₀, hst.nBlock ▸ h₁, ?_⟩
    rintro _ ⟨c, hc, rfl⟩ x hx hcx
    have hmem' : c.block t.arena.mem.szAtom ∈ (⟨m', ⟨p, n⟩ :: t.arena.live⟩ : Arena).liveBlocks :=
      ⟨c, List.mem_cons_of_mem _ hc, by rw [hst.szAtom]⟩
    have heq := hh.layout.tiling.disjoint _ (Or.inl (Or.inr hmem)) _ (Or.inl (Or.inr hmem')) x hx hcx
    have hnodup := hs.nodup
    dsimp only at hnodup
    rw [hst.szAtom, List.map_cons, List.nodup_cons, heq] at hnodup
    exact hnodup.1 (List.mem_map.mpr ⟨c, hc, rfl⟩)
  · rintro ⟨b, hlog, hal, h₀, h₁, hfree⟩
    cases r with
    | some p => exact ⟨m', p, he⟩
    | none =>
        obtain ⟨_, hlt⟩ := hnone rfl
        obtain ⟨free, hh⟩ := h.arena.heap
        rw [hh.layout.lists.freeBlocks_eq] at hlt
        have hal' : ∀ d ∈ freeSet free, d.Aligned := fun d hd => hh.layout.tiling.aligned d (Or.inl (Or.inl hd))
        obtain ⟨d, hd, hle, _⟩ := hh.lone.exists_coarse hal' (s := b.start) (k := b.log) hal (by
          intro x hx
          have hx : b.Has x := hx
          obtain ⟨d, (hd | hd) | hd, hdx⟩ := hh.layout.tiling.cover x (h₀.trans hx.1) (hx.2.trans_le h₁)
          · exact ⟨d, hd, hdx⟩
          · exact absurd hdx (hfree d hd x hx)
          · exact absurd hd (Set.notMem_empty d))
        have := hlt d hd
        omega

end Objects

end Eleos.Mem5
