import Eleos.Lib.Counter

/-!
# 顔の画像のヒストグラム（`face_verification.cpp`）

画素ごとに八つの隣の画素と比べて 8 ビットのパターンを作り、画像を分けた区画ごとにパターンの出現を数える。信頼側と非信頼側の関数は
等しい。`ROT_INVARIANT` は定義されている。
-/

namespace Eleos.Face

/-! ## 画像 -/

/-- `IMG_WIDTH`。 -/
def imgWidth : Nat := 512

/-- `BLOCK_WIDTH`。 -/
def blockWidth : Nat := 16

/-- `NBLOCKS_DIM`。 -/
def nblocksDim : Nat := imgWidth / blockWidth

/-- `HISTOGRAM_LEN`。 -/
def histogramLen : Nat := 58

/-- `HISTOGRAM_LEN * NBLOCKS`。 -/
def histogramSize : Nat := histogramLen * (nblocksDim * nblocksDim)

/-- 画像。 -/
abbrev Img := Fin imgWidth → Fin imgWidth → UInt8

/-- `img[r][c]`。 -/
def Img.read (img : Img) (r c : Int) : Except Stop UInt8 :=
  if h : (0 ≤ r ∧ r < imgWidth) ∧ 0 ≤ c ∧ c < imgWidth then
    .ok (img ⟨r.toNat, (Int.toNat_lt h.1.1).mpr h.1.2⟩ ⟨c.toNat, (Int.toNat_lt h.2.1).mpr h.2.2⟩)
  else .error .outOfBounds

/-! ## パターン -/

/-- C の比較 `a > v` の値。 -/
def gt (a v : UInt8) : UInt8 := if a > v then 1 else 0

/-- `get_pattern`。 -/
def getPattern (img : Img) (r c : Int) : Except Stop UInt8 := do
  let v ← img.read r c
  return (gt (← img.read (r - 1) (c - 1)) v <<< 7) |||
    (gt (← img.read (r - 1) c) v <<< 6) |||
    (gt (← img.read (r - 1) (c + 1)) v <<< 5) |||
    (gt (← img.read r (c + 1)) v <<< 4) |||
    (gt (← img.read (r + 1) (c + 1)) v <<< 3) |||
    (gt (← img.read (r + 1) c) v <<< 2) |||
    (gt (← img.read (r + 1) (c - 1)) v <<< 1) |||
    (gt (← img.read r (c - 1)) v <<< 0)

/-- `is_pattern_uniform` の繰り返し。残りの回数で再帰する。 -/
def uniformLoop : Nat → UInt8 → UInt8 → Nat → Nat
  | 0, _, _, transitions => transitions
  | n + 1, last, cur, transitions =>
      uniformLoop n (cur &&& 1) (cur >>> 1) (if cur &&& (1 : UInt8) ≠ last then transitions + 1 else transitions)

/-- `is_pattern_uniform`。 -/
def isPatternUniform (pattern : UInt8) : Bool :=
  let transitions := uniformLoop 8 (pattern &&& 1) pattern 0
  let transitions := if pattern &&& (1 : UInt8) ≠ (pattern >>> 7) &&& (1 : UInt8) then transitions + 1 else transitions
  decide (transitions < 3)

/-- `rotate` の一回分。 -/
def rotateOnce (cur : UInt8) : UInt8 := (cur >>> 1) ||| ((cur &&& 1) <<< 7)

/-- `rotate`。 -/
def rotate (pattern : UInt8) : Nat → UInt8
  | 0 => pattern
  | rotation + 1 => rotateOnce (rotate pattern rotation)

/-! ## パターンの番号 -/

/-- `pattern2bin` の配列。 -/
abbrev Bins := UInt8 → Int

/-- `create_pattern2bin` の内側の繰り返し。 -/
def markRotations (i : UInt8) (next : Int) (pattern2bin : Bins) : Bins :=
  (List.range 8).foldl (fun pattern2bin j => Function.update pattern2bin (rotate i j) next) pattern2bin

/-- `create_pattern2bin` の繰り返しの一回分。 -/
def createStep (i : UInt8) (pattern2bin : Bins) (next : Int) : Bins × Int :=
  if pattern2bin i ≠ 0xff then (pattern2bin, next)
  else if isPatternUniform i then
    (markRotations i next (Function.update pattern2bin i next), next + 1)
  else (Function.update pattern2bin i (histogramLen - 1), next)

/-- `create_pattern2bin` の繰り返し。残りの回数で再帰する。 -/
def createLoop : Nat → Nat → Bins → Int → Bins
  | 0, _, pattern2bin, _ => pattern2bin
  | n + 1, i, pattern2bin, next =>
      let (pattern2bin, next) := createStep (UInt8.ofNat i) pattern2bin next
      createLoop n (i + 1) pattern2bin next

/-- `create_pattern2bin`。 -/
def createPattern2bin : Bins := createLoop 256 0 (fun _ => 0xff) 0

/-! ## ヒストグラム -/

/-- `calc_histogram` の繰り返しの一回分。 -/
def countPixel (img : Img) (pattern2bin : Bins) (i : Int) (histogram : Nat → Int) (j : Int) :
    Except Stop (Nat → Int) := do
  let pattern ← getPattern img i j
  let histogramI := i / blockWidth
  let histogramJ := j / blockWidth
  let startOffset := histogramI * nblocksDim * histogramLen + histogramJ * histogramLen
  bump histogramSize histogram (startOffset + pattern2bin pattern)

/-- `calc_histogram`。 -/
def calcHistogram (histogram : Nat → Int) (img : Img) (pattern2bin : Bins) : Except Stop (Nat → Int) :=
  let histogram := fun k => if k < histogramSize then 0 else histogram k
  let inside := List.range' 1 (imgWidth - 2)
  inside.foldlM (fun histogram (i : Nat) =>
    inside.foldlM (fun histogram (j : Nat) => countPixel img pattern2bin i histogram j) histogram) histogram

end Eleos.Face
