import Eleos.Face.Lemmas.Bins
import Mathlib.Data.Fin.VecNotation
import Mathlib.Order.Interval.Finset.Nat
import Mathlib.Tactic.FinCases

/-!
# 画素のまわりの語

`get_pattern` の値は、隣の画素のほうが明るいかどうかを環に並べた語を表す。画像を裏返すと語も裏返り、番号は変わらない。
-/

namespace Eleos.Face

variable {img : Img} {r c : Int}

/-- 隣の画素への変位。ビットの順に並べる。 -/
def around : Fin 8 → Int × Int := ![(0, -1), (1, -1), (1, 0), (1, 1), (0, 1), (-1, 1), (-1, 0), (-1, -1)]

/-- 画素の値。画像の外では 0 とする。 -/
def Img.pixel (img : Img) (r c : Int) : UInt8 := (img.read r c).toOption.getD 0

/-- 画素のまわりの語。 -/
def Img.neighbours (img : Img) (r c : Int) : Fin 8 → Bool :=
  fun k => img.pixel r c < img.pixel (r + (around k).1) (c + (around k).2)

/-! ## パターン -/

theorem Img.read_ok (hr : 0 ≤ r ∧ r < imgWidth) (hc : 0 ≤ c ∧ c < imgWidth) : img.read r c = .ok (img.pixel r c) := by
  simp [Img.read, Img.pixel, hr, hc, Except.toOption]

/-- 真偽値を下の桁に置いたバイト。 -/
def lowBit (b : Bool) : UInt8 := if b then 1 else 0

theorem gt_eq_lowBit (a v : UInt8) : gt a v = lowBit (decide (v < a)) := by
  simp [gt, lowBit]

theorem bits_pack : ∀ b₇ b₆ b₅ b₄ b₃ b₂ b₁ b₀ : Bool,
    bits ((lowBit b₇ <<< 7) ||| (lowBit b₆ <<< 6) ||| (lowBit b₅ <<< 5) ||| (lowBit b₄ <<< 4) ||| (lowBit b₃ <<< 3) |||
      (lowBit b₂ <<< 2) ||| (lowBit b₁ <<< 1) ||| (lowBit b₀ <<< 0)) = ![b₀, b₁, b₂, b₃, b₄, b₅, b₆, b₇] := by
  decide +kernel

/-- 縁を除いた画素では、`get_pattern` は配列の外を読まず、まわりの語を返す。 -/
theorem getPattern_ok (hr : 1 ≤ r ∧ r < imgWidth - 1) (hc : 1 ≤ c ∧ c < imgWidth - 1) :
    ∃ p, getPattern img r c = .ok p ∧ bits p = img.neighbours r c := by
  simp (disch := omega) only [getPattern, Img.read_ok]
  refine ⟨_, rfl, ?_⟩
  simp only [gt_eq_lowBit, bits_pack, Int.sub_eq_add_neg]
  funext k
  fin_cases k <;> simp [Img.neighbours, around] <;> rfl

/-! ## 画像の対称 -/

/-- 画像を左右に裏返す。 -/
def Img.mirror (img : Img) : Img := fun r c => img r c.rev

/-- 画像の行と列を入れ換える。 -/
def Img.transpose (img : Img) : Img := fun r c => img c r

/-- 画像を四分の一だけ回す。 -/
def Img.turn (img : Img) : Img := img.transpose.mirror

theorem Img.read_mirror (img : Img) (r c : Int) : img.mirror.read r c = img.read r (imgWidth - 1 - c) := by
  by_cases h : (0 ≤ r ∧ r < imgWidth) ∧ 0 ≤ c ∧ c < imgWidth
  · have h' : (0 ≤ r ∧ r < imgWidth) ∧ 0 ≤ imgWidth - 1 - c ∧ imgWidth - 1 - c < imgWidth := by omega
    rw [read, read, dif_pos h, dif_pos h', mirror]
    congr 2
    ext
    rw [Fin.val_rev]
    simp only
    omega
  · have h' : ¬((0 ≤ r ∧ r < imgWidth) ∧ 0 ≤ imgWidth - 1 - c ∧ imgWidth - 1 - c < imgWidth) := by omega
    rw [read, read, dif_neg h, dif_neg h']

theorem Img.read_transpose (img : Img) (r c : Int) : img.transpose.read r c = img.read c r := by
  by_cases h : (0 ≤ r ∧ r < imgWidth) ∧ 0 ≤ c ∧ c < imgWidth
  · rw [read, read, dif_pos h, dif_pos h.symm, transpose]
  · rw [read, read, dif_neg h, dif_neg fun h' => h h'.symm]

theorem binOf_flip (w : Fin 8 → Bool) (j : Fin 8) : binOf (fun k => w (j - k)) = binOf w := by
  rw [binOf, changes_flip, ones_flip, binOf]

/-- 裏返した画像のまわりの語は、もとの語を裏返したものである。 -/
theorem binOf_mirror (img : Img) (r c : Int) :
    binOf (img.mirror.neighbours r c) = binOf (img.neighbours r (imgWidth - 1 - c)) := by
  have haround : ∀ k, around (4 - k) = ((around k).1, -(around k).2) := by decide
  have hflip : img.mirror.neighbours r c = fun k => img.neighbours r (imgWidth - 1 - c) (4 - k) := by
    funext k
    have hsub : (imgWidth - 1 - (c + (around k).2) : Int) = imgWidth - 1 - c + -(around k).2 := by omega
    simp only [Img.neighbours, Img.pixel, Img.read_mirror, haround, hsub]
  rw [hflip, binOf_flip]

/-- 行と列を入れ換えた画像のまわりの語も、もとの語を裏返したものである。 -/
theorem binOf_transpose (img : Img) (r c : Int) :
    binOf (img.transpose.neighbours r c) = binOf (img.neighbours c r) := by
  have haround : ∀ k, around (6 - k) = ((around k).2, (around k).1) := by decide
  have hflip : img.transpose.neighbours r c = fun k => img.neighbours c r (6 - k) := by
    funext k
    simp only [Img.neighbours, Img.pixel, Img.read_transpose, haround]
  rw [hflip, binOf_flip]

/-! ## 区画 -/

/-- 一辺 `n` の正方形から縁を除いた位置。数え上げて展開されないようにする。 -/
@[irreducible] def interior (n : Nat) : Finset (Nat × Nat) := Finset.Ico 1 (n - 1) ×ˢ Finset.Ico 1 (n - 1)

theorem mem_interior_iff {n : Nat} {x : Nat × Nat} :
    x ∈ interior n ↔ (1 ≤ x.1 ∧ x.1 < n - 1) ∧ 1 ≤ x.2 ∧ x.2 < n - 1 := by
  rw [interior, Finset.mem_product, Finset.mem_Ico, Finset.mem_Ico]

/-- 区画 `(bi, bj)` の中の、語の番号が `b` である画素の個数。 -/
def Img.cell (img : Img) (bi bj : Nat) (b : Int) : Nat :=
  ((interior imgWidth).filter fun x =>
    x.1 / blockWidth = bi ∧ x.2 / blockWidth = bj ∧ binOf (img.neighbours x.1 x.2) = b).card

/-- 列の裏返しは、区画の列を裏返す。 -/
theorem div_mirror_iff {c bj : Nat} (hc : c < imgWidth) (hbj : bj < nblocksDim) :
    (imgWidth - 1 - c) / blockWidth = nblocksDim - 1 - bj ↔ c / blockWidth = bj := by
  simp only [imgWidth, blockWidth, nblocksDim] at *
  omega

theorem Img.cell_mirror_le (img : Img) {bi bj : Nat} (hbj : bj < nblocksDim) (b : Int) :
    img.mirror.cell bi bj b ≤ img.cell bi (nblocksDim - 1 - bj) b := by
  refine Finset.card_le_card_of_injOn (fun x => (x.1, imgWidth - 1 - x.2)) (fun x hx => ?_) fun x hx y hy h => ?_
  · rw [Finset.mem_coe, Finset.mem_filter, mem_interior_iff, binOf_mirror] at hx
    obtain ⟨⟨hr, hc⟩, hbi, hbj', hb⟩ := hx
    have hcol : ((imgWidth - 1 - x.2 : Nat) : Int) = imgWidth - 1 - x.2 := by omega
    rw [Finset.mem_coe, Finset.mem_filter, mem_interior_iff, hcol]
    exact ⟨⟨hr, by simp only; omega⟩, hbi, (div_mirror_iff (by omega) hbj).mpr hbj', hb⟩
  · rw [Finset.mem_coe, Finset.mem_filter, mem_interior_iff] at hx hy
    obtain ⟨h₁, h₂⟩ := Prod.mk.inj h
    exact Prod.ext h₁ (by omega)

theorem Img.cell_mirror (img : Img) {bi bj : Nat} (hbj : bj < nblocksDim) (b : Int) :
    img.mirror.cell bi bj b = img.cell bi (nblocksDim - 1 - bj) b := by
  have hback : img.mirror.mirror = img := by
    funext r c
    rw [mirror, mirror, Fin.rev_rev]
  have hbj' : nblocksDim - 1 - bj < nblocksDim := by omega
  have hle : img.mirror.mirror.cell bi (nblocksDim - 1 - bj) b ≤ img.mirror.cell bi _ b := cell_mirror_le _ hbj' b
  rw [hback, Nat.sub_sub_self (Nat.le_sub_one_of_lt hbj)] at hle
  exact Nat.le_antisymm (cell_mirror_le img hbj b) hle

theorem Img.cell_transpose (img : Img) (bi bj : Nat) (b : Int) : img.transpose.cell bi bj b = img.cell bj bi b := by
  refine Finset.card_equiv (Equiv.prodComm Nat Nat) fun x => ?_
  simp only [Finset.mem_filter, mem_interior_iff, binOf_transpose, Equiv.prodComm_apply, Prod.fst_swap, Prod.snd_swap]
  constructor
  · rintro ⟨⟨hr, hc⟩, hbi, hbj, hb⟩
    exact ⟨⟨hc, hr⟩, hbj, hbi, hb⟩
  · rintro ⟨⟨hc, hr⟩, hbj, hbi, hb⟩
    exact ⟨⟨hr, hc⟩, hbi, hbj, hb⟩

theorem Img.cell_turn (img : Img) {bi bj : Nat} (hbj : bj < nblocksDim) (b : Int) :
    img.turn.cell bi bj b = img.cell (nblocksDim - 1 - bj) bi b := by
  rw [turn, cell_mirror _ hbj, cell_transpose]

end Eleos.Face
