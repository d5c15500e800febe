import Eleos.Face.Pattern
import Eleos.Lib.Cyclic
import Mathlib.Data.Nat.Size

/-!
# パターンの番号の表

パターンを環状の語とみなす。隣との変わり目が二つ以下の語の番号は真の個数であり、ほかの語の番号は 57 である。
-/

namespace Eleos.Face

variable {q : UInt8} {n : Nat}

/-- パターンのビットを環に並べた語。 -/
def bits (p : UInt8) : Fin 8 → Bool := fun k => p.toNat.testBit k

/-- 語の番号。 -/
def binOf (w : Fin 8 → Bool) : Int := if changes w ≤ 2 then ones w else histogramLen - 1

/-- 下の `k` ビットだけが立ったパターン。 -/
def block (k : Nat) : UInt8 := UInt8.ofNat (2 ^ k - 1)

/-! ## 一つのバイトについての事実 -/

theorem forall_byte {P : UInt8 → Prop} (h : ∀ n < 256, P (UInt8.ofNat n)) (p : UInt8) : P p := by
  simpa using h p.toNat p.toNat_lt

theorem bits_rotateOnce (p : UInt8) : ∀ k, bits (rotateOnce p) k = bits p (k + 1) :=
  forall_byte (P := fun p => ∀ k, bits (rotateOnce p) k = bits p (k + 1)) (by decide +kernel) p

theorem isPatternUniform_iff (p : UInt8) : isPatternUniform p = true ↔ changes (bits p) ≤ 2 :=
  forall_byte (P := fun p => isPatternUniform p = true ↔ changes (bits p) ≤ 2) (by decide +kernel) p

theorem uniform_eq_rotate (p : UInt8) : isPatternUniform p = true → ∃ k ≤ 8, ∃ j < 8, rotate (block k) j = p :=
  forall_byte (P := fun p => isPatternUniform p = true → ∃ k ≤ 8, ∃ j < 8, rotate (block k) j = p)
    (by decide +kernel) p

theorem block_le_rotate : ∀ k ≤ 8, ∀ j < 8, 2 ^ k ≤ (rotate (block k) j).toNat + 1 := by decide +kernel

theorem bits_block : ∀ k ≤ 8, ones (bits (block k)) = k ∧ changes (bits (block k)) ≤ 2 := by decide +kernel

/-- `rotate` は語を回す。 -/
theorem bits_rotate (p : UInt8) (j : Nat) (k : Fin 8) : bits (rotate p j) k = bits p (k + Fin.ofNat 8 j) := by
  induction j generalizing k with
  | zero => simp [rotate]
  | succ j ih =>
      have hk : k + 1 + Fin.ofNat 8 j = k + Fin.ofNat 8 (j + 1) := by
        ext
        simp only [Fin.val_add, Fin.val_ofNat, Fin.val_one]
        omega
      rw [rotate, bits_rotateOnce, ih, hk]

theorem ones_rotate (p : UInt8) (j : Nat) : ones (bits (rotate p j)) = ones (bits p) :=
  (congrArg ones (funext (bits_rotate p j))).trans (ones_shift _ _)

theorem changes_rotate (p : UInt8) (j : Nat) : changes (bits (rotate p j)) = changes (bits p) :=
  (congrArg changes (funext (bits_rotate p j))).trans (changes_shift _ _)

/-- 変わり目が二つ以下の語は、真の個数だけの塊を回したものである。 -/
theorem exists_rotate (hq : changes (bits q) ≤ 2) : ∃ j < 8, rotate (block (ones (bits q))) j = q := by
  obtain ⟨k, hk, j, hj, rfl⟩ := uniform_eq_rotate q ((isPatternUniform_iff q).mpr hq)
  refine ⟨j, hj, ?_⟩
  rw [ones_rotate, (bits_block k hk).1]

/-- 塊を回して得られるのは、変わり目が二つ以下で、真の個数が等しい語である。 -/
theorem mem_rotations_iff {k : Nat} (hk : k ≤ 8) :
    q ∈ (List.range 8).map (rotate (block k)) ↔ changes (bits q) ≤ 2 ∧ ones (bits q) = k := by
  rw [List.mem_map]
  constructor
  · rintro ⟨j, -, rfl⟩
    rw [ones_rotate, changes_rotate]
    exact (bits_block k hk).symm
  · rintro ⟨hq, rfl⟩
    obtain ⟨j, hj, hrot⟩ := exists_rotate hq
    exact ⟨j, List.mem_range.mpr hj, hrot⟩

/-! ## 表を作る繰り返し -/

theorem foldl_update {α β γ : Type} [DecidableEq β] (f : α → β) (v : γ) (l : List α) (b : β → γ) (y : β) :
    l.foldl (fun b x => Function.update b (f x) v) b y = if y ∈ l.map f then v else b y := by
  induction l generalizing b with
  | nil => simp
  | cons x l ih =>
      rw [List.foldl_cons, ih, List.map_cons]
      by_cases hx : y = f x
      · simp [hx]
      · simp [hx]

/-- `n` より小さいパターンを見終えたときの表。 -/
def created (n : Nat) : Bins := fun q =>
  if changes (bits q) ≤ 2 then (if ones (bits q) < n.size then ones (bits q) else 0xff)
  else if q.toNat < n then histogramLen - 1 else 0xff

theorem size_succ (n : Nat) : (n + 1).size = if n + 1 = 2 ^ n.size then n.size + 1 else n.size := by
  have hlt := Nat.lt_size_self n
  split
  next h => rw [h, Nat.size_pow]
  next h => exact Nat.le_antisymm (Nat.size_le.mpr (by omega)) (Nat.size_le_size (Nat.le_succ n))

/-- 塊を見るときは、次の番号がその真の個数である。 -/
theorem leader_eq (hn : n < 256) (h : n + 1 = 2 ^ n.size) : UInt8.ofNat n = block n.size ∧ n.size ≤ 8 := by
  rw [block, ← h, Nat.add_sub_cancel]
  exact ⟨rfl, Nat.size_le.mpr hn⟩

/-- 変わり目が二つ以下でまだ番号のない語に当たるのは、塊を見るときに限る。 -/
theorem leader_of_le (hn : n < 256) (hu : changes (bits (UInt8.ofNat n)) ≤ 2)
    (h : n.size ≤ ones (bits (UInt8.ofNat n))) : n + 1 = 2 ^ n.size := by
  obtain ⟨j, hj, hrot⟩ := exists_rotate hu
  have hle := block_le_rotate _ (ones_le (bits (UInt8.ofNat n))) j hj
  rw [hrot, UInt8.toNat_ofNat_of_lt' hn] at hle
  have hpow := Nat.pow_le_pow_right Nat.two_pos h
  have hlt := Nat.lt_size_self n
  omega

theorem ones_bits_ne (q : UInt8) : (ones (bits q) : Int) ≠ 0xff := by
  have hle := ones_le (bits q)
  omega

theorem toNat_lt_succ_iff (hn : n < 256) (q : UInt8) : q.toNat < n + 1 ↔ q.toNat < n ∨ q = UInt8.ofNat n := by
  rw [← UInt8.toNat_inj, UInt8.toNat_ofNat_of_lt' hn]
  omega

/-- 塊を見ると、それを回した語がすべて次の番号を得る。 -/
theorem createStep_leader (hn : n < 256) (hlead : n + 1 = 2 ^ n.size) :
    createStep (UInt8.ofNat n) (created n) n.size = (created (n + 1), ((n + 1).size : Int)) := by
  obtain ⟨hp, hk⟩ := leader_eq hn hlead
  obtain ⟨hones, hchg⟩ := bits_block _ hk
  have hsize : (n + 1).size = n.size + 1 := (size_succ n).trans (if_pos hlead)
  have hfree : created n (block n.size) = 0xff := by simp [created, hchg, hones]
  have hmark : markRotations (block n.size) n.size (Function.update (created n) (block n.size) n.size) =
      created (n + 1) := by
    funext q
    rw [markRotations, foldl_update]
    by_cases hq : q ∈ (List.range 8).map (rotate (block n.size))
    · obtain ⟨hu, ho⟩ := (mem_rotations_iff hk).mp hq
      rw [if_pos hq]
      simp [created, hu, ho, hsize]
    · have hne : q ≠ block n.size := fun e => hq ((mem_rotations_iff hk).mpr (e ▸ ⟨hchg, hones⟩))
      rw [if_neg hq, Function.update_of_ne hne]
      by_cases hu : changes (bits q) ≤ 2
      · have ho : ones (bits q) ≠ n.size := fun ho => hq ((mem_rotations_iff hk).mpr ⟨hu, ho⟩)
        have hlt : ones (bits q) < n.size + 1 ↔ ones (bits q) < n.size := by omega
        simp [created, hu, hsize, hlt]
      · simp [created, hu, toNat_lt_succ_iff hn, hp, hne]
  simp [createStep, hp, hfree, (isPatternUniform_iff _).mpr hchg, hmark, hsize]

/-- ほかの語を見ても、番号を得るのはその語だけである。 -/
theorem createStep_follower (hn : n < 256) (hlead : n + 1 ≠ 2 ^ n.size) :
    createStep (UInt8.ofNat n) (created n) n.size = (created (n + 1), ((n + 1).size : Int)) := by
  have hsize : (n + 1).size = n.size := (size_succ n).trans (if_neg hlead)
  by_cases hu : changes (bits (UInt8.ofNat n)) ≤ 2
  · have hseen : ones (bits (UInt8.ofNat n)) < n.size := Nat.lt_of_not_le fun h => hlead (leader_of_le hn hu h)
    have hset : created n (UInt8.ofNat n) ≠ 0xff := by
      simpa [created, hu, hseen] using ones_bits_ne (UInt8.ofNat n)
    have hkeep : created n = created (n + 1) := by
      funext q
      by_cases hq : changes (bits q) ≤ 2
      · simp [created, hq, hsize]
      · have hne : q ≠ UInt8.ofNat n := fun e => hq (e ▸ hu)
        simp [created, hq, toNat_lt_succ_iff hn, hne]
    simp [createStep, hset, ← hkeep, hsize]
  · have hfree : created n (UInt8.ofNat n) = 0xff := by
      simp [created, hu, Nat.mod_eq_of_lt hn]
    have hset : Function.update (created n) (UInt8.ofNat n) (histogramLen - 1) = created (n + 1) := by
      funext q
      by_cases hq : q = UInt8.ofNat n
      · simp [created, hq, hu, Nat.mod_eq_of_lt hn]
      · rw [Function.update_of_ne hq]
        simp [created, hsize, toNat_lt_succ_iff hn, hq]
    simp [createStep, hfree, mt (isPatternUniform_iff _).mp hu, hset, hsize]

theorem createStep_created (hn : n < 256) :
    createStep (UInt8.ofNat n) (created n) n.size = (created (n + 1), ((n + 1).size : Int)) := by
  by_cases hlead : n + 1 = 2 ^ n.size
  · exact createStep_leader hn hlead
  · exact createStep_follower hn hlead

theorem createLoop_created {m : Nat} (hn : n + m ≤ 256) : createLoop m n (created n) n.size = created (n + m) := by
  induction m generalizing n with
  | zero => rfl
  | succ m ih =>
      rw [createLoop, createStep_created (by omega)]
      exact (ih (by omega)).trans (congrArg created (by omega))

/-- 表の番号は、語の番号である。 -/
theorem createPattern2bin_apply (p : UInt8) : createPattern2bin p = binOf (bits p) := by
  have hstart : (fun _ => 0xff : Bins) = created 0 := funext fun q => by simp [created]
  have hsize : ones (bits p) < Nat.size 256 := by
    have h256 : Nat.size (2 ^ 8) = 9 := Nat.size_pow
    exact Nat.lt_of_lt_of_le (Nat.lt_succ_of_le (ones_le _)) h256.ge
  have hrun : createPattern2bin = created 256 := by
    rw [createPattern2bin, hstart]
    exact createLoop_created (n := 0) (Nat.le_refl 256)
  simp [hrun, created, hsize, p.toNat_lt, binOf]

end Eleos.Face
