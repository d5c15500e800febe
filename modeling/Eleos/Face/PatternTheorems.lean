import Eleos.Face.Lemmas.Image
import Mathlib.Algebra.BigOperators.Ring.Finset
import Mathlib.Data.List.ProdSigma

/-!
# 顔の画像のヒストグラムの性質

ヒストグラムの計算は、区画ごとに、縁を除いた画素を語の番号に従って数える。画像を回しても裏返しても、区画が同じように動くだけである。
-/

namespace Eleos.Face

variable {img : Img} {histogram h : Nat → Int} {x : Nat × Nat} {bi bj b : Nat}

/-- 区画 `(bi, bj)` の番号 `b` の計数器の位置。 -/
def counterAt (bi bj b : Nat) : Nat := bi * nblocksDim * histogramLen + bj * histogramLen + b

/-- 画素が増やす計数器の位置。 -/
def Img.key (img : Img) (x : Nat × Nat) : Int :=
  counterAt (x.1 / blockWidth) (x.2 / blockWidth) 0 + binOf (img.neighbours x.1 x.2)

theorem binOf_range (w : Fin 8 → Bool) : 0 ≤ binOf w ∧ binOf w < histogramLen := by
  have hle := ones_le w
  unfold binOf histogramLen
  split <;> omega

theorem Img.key_range (hx : x ∈ interior imgWidth) : 0 ≤ img.key x ∧ img.key x < histogramSize := by
  obtain ⟨hr, hc⟩ := mem_interior_iff.mp hx
  have hb := binOf_range (img.neighbours x.1 x.2)
  simp only [key, counterAt, histogramSize, imgWidth, blockWidth, nblocksDim, histogramLen] at *
  omega

theorem Img.key_eq_iff (hx : x ∈ interior imgWidth) (hbj : bj < nblocksDim) (hb : b < histogramLen) :
    img.key x = counterAt bi bj b ↔
      x.1 / blockWidth = bi ∧ x.2 / blockWidth = bj ∧ binOf (img.neighbours x.1 x.2) = b := by
  obtain ⟨hr, hc⟩ := mem_interior_iff.mp hx
  have hw := binOf_range (img.neighbours x.1 x.2)
  simp only [key, counterAt, imgWidth, blockWidth, nblocksDim, histogramLen] at *
  omega

theorem countPixel_eq (hx : x ∈ interior imgWidth) :
    countPixel img createPattern2bin x.1 h x.2 = bump histogramSize h (img.key x) := by
  obtain ⟨hr, hc⟩ := mem_interior_iff.mp hx
  obtain ⟨p, hp, hbits⟩ : ∃ p, getPattern img x.1 x.2 = .ok p ∧ bits p = img.neighbours x.1 x.2 :=
    getPattern_ok (by omega) (by omega)
  have hkey : img.key x = (x.1 : Int) / blockWidth * nblocksDim * histogramLen + (x.2 : Int) / blockWidth * histogramLen +
      createPattern2bin p := by
    rw [createPattern2bin_apply, hbits, Img.key, counterAt]
    push_cast
    rw [Int.add_zero]
  simp only [hkey, countPixel, hp, bind, Except.bind]

/-- 縁を除いた画素を調べる順に並べたもの。 -/
def scan (n : Nat) : List (Nat × Nat) := List.range' 1 (n - 2) ×ˢ List.range' 1 (n - 2)

theorem mem_scan_iff {n : Nat} : x ∈ scan n ↔ x ∈ interior n := by
  rw [scan, List.mem_product, List.mem_range'_1, List.mem_range'_1, mem_interior_iff]
  omega

theorem foldlM_scan {σ : Type} (n : Nat) (f : σ → Nat × Nat → Except Stop σ) (s : σ) :
    (scan n).foldlM f s =
      (List.range' 1 (n - 2)).foldlM (fun s i => (List.range' 1 (n - 2)).foldlM (fun s j => f s (i, j)) s) s := by
  refine (foldlM_flatMap _ s).trans ?_
  simp only [List.foldlM_map]

theorem calcHistogram_eq : calcHistogram histogram img createPattern2bin =
    ((scan imgWidth).map img.key).foldlM (bump histogramSize) fun k => if k < histogramSize then 0 else histogram k := by
  have hstep : ∀ x ∈ scan imgWidth, ∀ h, countPixel img createPattern2bin x.1 h x.2 = bump histogramSize h (img.key x) :=
    fun x hx h => countPixel_eq (mem_scan_iff.mp hx)
  rw [← foldlM_step hstep, foldlM_scan, calcHistogram]

/-- どの計数器にも、それを指す画素の個数が残る。 -/
theorem calcHistogram_count : calcHistogram histogram img createPattern2bin = .ok fun k =>
    (if k < histogramSize then 0 else histogram k) + ((interior imgWidth).filter fun x => img.key x = k).card := by
  have hset : (scan imgWidth).toFinset = interior imgWidth := by
    ext x
    rw [List.mem_toFinset, mem_scan_iff]
  have hnodup : (scan imgWidth).Nodup := (List.nodup_range').product (List.nodup_range')
  rw [calcHistogram_eq, foldlM_bump]
  · simp only [count_map_eq_card hnodup, hset]
  · simp only [List.forall_mem_map]
    exact fun x hx => Img.key_range (mem_scan_iff.mp hx)

/-! ## 区画ごとの個数 -/

/-- 区画の第 `i` 行に属する、縁を除いた画素の行の個数。 -/
def innerRows (i : Nat) : Nat := min (imgWidth - 1) ((i + 1) * blockWidth) - max 1 (i * blockWidth)

theorem card_block (bi bj : Nat) :
    ((interior imgWidth).filter fun x => x.1 / blockWidth = bi ∧ x.2 / blockWidth = bj).card = innerRows bi * innerRows bj := by
  have hset : (interior imgWidth).filter (fun x => x.1 / blockWidth = bi ∧ x.2 / blockWidth = bj) =
      Finset.Ico (max 1 (bi * blockWidth)) (min (imgWidth - 1) ((bi + 1) * blockWidth)) ×ˢ
        Finset.Ico (max 1 (bj * blockWidth)) (min (imgWidth - 1) ((bj + 1) * blockWidth)) := by
    ext x
    rw [Finset.mem_filter, mem_interior_iff, Finset.mem_product, Finset.mem_Ico, Finset.mem_Ico]
    simp only [imgWidth, blockWidth]
    omega
  rw [hset, Finset.card_product, Nat.card_Ico, Nat.card_Ico, innerRows, innerRows]

theorem Img.sum_cell (img : Img) (bi bj : Nat) :
    ∑ b ∈ Finset.range histogramLen, img.cell bi bj b = innerRows bi * innerRows bj := by
  rw [← card_block, Finset.card_eq_sum_card_fiberwise (f := fun x => (binOf (img.neighbours x.1 x.2)).toNat)
    (t := Finset.range histogramLen)]
  · refine Finset.sum_congr rfl fun b hb => ?_
    rw [Finset.filter_filter, cell]
    congr 1
    refine Finset.filter_congr fun x hx => ?_
    have hw := binOf_range (img.neighbours x.1 x.2)
    omega
  · intro x hx
    have hw := binOf_range (img.neighbours x.1 x.2)
    rw [Finset.mem_coe, Finset.mem_range]
    dsimp only
    omega

/-- 使われない番号。 -/
theorem binOf_ne (w : Fin 8 → Bool) (h8 : 8 < b) (hb : b < histogramLen - 1) : binOf w ≠ b := by
  have hle := ones_le w
  unfold binOf
  split <;> omega

theorem Img.cell_eq_zero (h8 : 8 < b) (hb : b < histogramLen - 1) : img.cell bi bj b = 0 := by
  rw [cell, Finset.card_eq_zero, Finset.filter_eq_empty_iff]
  exact fun x _ h => binOf_ne _ h8 hb h.2.2

/-- 表の番号で数えたヒストグラムは、区画ごとの個数である。 -/
theorem calcHistogram_ok (histogram : Nat → Int) (img : Img) :
    ∃ h, calcHistogram histogram img createPattern2bin = .ok h ∧ (∀ k, histogramSize ≤ k → h k = histogram k) ∧
      ∀ bi < nblocksDim, ∀ bj < nblocksDim, ∀ b < histogramLen, h (counterAt bi bj b) = img.cell bi bj b := by
  refine ⟨_, calcHistogram_count, fun k hk => ?_, fun bi hbi bj hbj b hb => ?_⟩
  · have hnone : ((interior imgWidth).filter fun x => img.key x = k) = ∅ :=
      Finset.filter_eq_empty_iff.mpr fun x hx e => by
        have hrange := img.key_range hx
        omega
    simp [hnone, Nat.not_lt.mpr hk]
  · have hlt : counterAt bi bj b < histogramSize := by
      simp only [counterAt, histogramSize, imgWidth, blockWidth, nblocksDim, histogramLen] at *
      omega
    have hcell : ((interior imgWidth).filter fun x => img.key x = counterAt bi bj b).card = img.cell bi bj b :=
      congrArg Finset.card (Finset.filter_congr fun x hx => img.key_eq_iff hx hbj hb)
    simp [hlt, hcell]

/-- ヒストグラムの計算は配列の外に触れず、前の内容によらない。区画の計数器の合計はその区画の画素の個数であり、番号 9 から 56 の計数器は
空である。 -/
theorem calcHistogram_blocks (histogram : Nat → Int) (img : Img) :
    ∃ h, calcHistogram histogram img createPattern2bin = .ok h ∧ (∀ k, histogramSize ≤ k → h k = histogram k) ∧
      ∀ bi < nblocksDim, ∀ bj < nblocksDim,
        ∑ b ∈ Finset.range histogramLen, h (counterAt bi bj b) = innerRows bi * innerRows bj ∧
        ∀ b < histogramLen, h (counterAt bi bj b) = img.cell bi bj b ∧
          (8 < b → b < histogramLen - 1 → h (counterAt bi bj b) = 0) := by
  obtain ⟨h, hrun, hout, hcell⟩ := calcHistogram_ok histogram img
  refine ⟨h, hrun, hout, fun bi hbi bj hbj => ⟨?_, fun b hb => ⟨hcell bi hbi bj hbj b hb, fun h8 hb' => ?_⟩⟩⟩
  · rw [Finset.sum_congr rfl fun b hb => hcell bi hbi bj hbj b (Finset.mem_range.mp hb)]
    rw [← Nat.cast_sum, img.sum_cell, Nat.cast_mul]
  · rw [hcell bi hbi bj hbj b hb, Img.cell_eq_zero h8 hb']
    rfl

/-- 画像を回すと区画が回り、画像を裏返すと区画が裏返る。区画の中の計数器は変わらない。 -/
theorem calcHistogram_symmetric (histogram histogram₁ histogram₂ : Nat → Int) (img : Img) :
    ∃ h h₁ h₂, calcHistogram histogram img createPattern2bin = .ok h ∧
      calcHistogram histogram₁ img.turn createPattern2bin = .ok h₁ ∧
      calcHistogram histogram₂ img.mirror createPattern2bin = .ok h₂ ∧
      ∀ bi < nblocksDim, ∀ bj < nblocksDim, ∀ b < histogramLen,
        h₁ (counterAt bi bj b) = h (counterAt (nblocksDim - 1 - bj) bi b) ∧
        h₂ (counterAt bi bj b) = h (counterAt bi (nblocksDim - 1 - bj) b) := by
  obtain ⟨h, hrun, -, hcell⟩ := calcHistogram_ok histogram img
  obtain ⟨h₁, hrun₁, -, hcell₁⟩ := calcHistogram_ok histogram₁ img.turn
  obtain ⟨h₂, hrun₂, -, hcell₂⟩ := calcHistogram_ok histogram₂ img.mirror
  refine ⟨h, h₁, h₂, hrun, hrun₁, hrun₂, fun bi hbi bj hbj b hb => ⟨?_, ?_⟩⟩
  · rw [hcell₁ bi hbi bj hbj b hb, hcell _ (by omega) bi hbi b hb, Img.cell_turn img hbj]
  · rw [hcell₂ bi hbi bj hbj b hb, hcell bi hbi _ (by omega) b hb, Img.cell_mirror img hbj]

end Eleos.Face
