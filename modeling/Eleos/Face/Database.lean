import Eleos.Libc.Session

/-!
# 顔認証サーバのデータベース（`face_verification.cpp`）

鍵からヒストグラムへの表。信頼側はヒストグラムを SUVM のブロックに置き、非信頼側は普通の領域に置く。二つの表の操作は、
ヒストグラムを置く部分のほかは等しい。
-/

namespace Eleos.Face

open Pager Libc

/-! ## 文字列 -/

/-- `hash_function` の繰り返し。 -/
def hashLoop (hash : UInt64) : List UInt8 → UInt64
  | [] => hash
  | c :: str => if c = 0 then hash else hashLoop ((hash <<< 5) + hash + c.toUInt64) str

/-- `hash_function`。 -/
def hashFunction (str : List UInt8) (nbuckets : Nat) : Nat := (hashLoop 5381 str).toNat % nbuckets

/-- `strcmp`。並びの終わりも NUL とみなす。 -/
def strcmp : List UInt8 → List UInt8 → Int
  | [], [] => 0
  | [], d :: _ => -(d.toNat : Int)
  | c :: _, [] => c.toNat
  | c :: s1, d :: s2 => if c ≠ d then c.toNat - d.toNat else if c = 0 then 0 else strcmp s1 s2

/-- `strncpy` が `n` バイトの領域に書く内容。NUL のあとは 0 で埋める。 -/
def strncpy : Nat → List UInt8 → List UInt8
  | 0, _ => []
  | n + 1, [] => 0 :: strncpy n []
  | n + 1, c :: src => if c = 0 then 0 :: strncpy n [] else c :: strncpy n src

/-- NUL の手前までの文字列。 -/
def text (str : List UInt8) : List UInt8 := str.takeWhile (· ≠ 0)

/-! ## 表 -/

/-- `DUP_NUM`。 -/
def dupNum : Nat := 2

/-- `sizeof(int) * HISTOGRAM_LEN * NBLOCKS`。 -/
def histogramBytes : Nat := 237568

/-- `entry_t`。`value` はヒストグラムを指すポインタであり、`none` は `NULL` である。 -/
structure Entry (α : Type) where
  key : List UInt8
  value : Option α

/-- `hash_t`。 -/
structure Hash (α : Type) where
  id : Nat → Entry α
  nentries : UInt64
  totalSize : UInt64
  nbuckets : Nat

section

variable {α σ : Type}

/-- `hash_init`。 -/
def hashInit : Hash α where
  id := fun _ => ⟨List.replicate 40 0, none⟩
  nentries := 0
  totalSize := UInt64.ofNat (1024 * dupNum * 40)
  nbuckets := 1024 * dupNum

/-- `hash_get` の繰り返し。 -/
def hashGetLoop (h : Hash α) (key : List UInt8) (hash : Nat) : Nat → Nat → Except Stop (Option α)
  | 0, _ => .error .spin
  | fuel + 1, idx =>
      let entry := h.id idx
      if entry.value.isSome ∧ strcmp key (h.id idx).key = 0 then .ok entry.value
      else
        let idx := (idx + 1) % h.nbuckets
        if idx ≠ hash ∧ entry.value.isSome then hashGetLoop h key hash fuel idx else .ok none

/-- `hash_get`。一周すれば終わるので、繰り返しは `nbuckets` 回までである。 -/
def hashGet (h : Hash α) (key : List UInt8) : Except Stop (Option α) :=
  let hash := hashFunction key h.nbuckets
  hashGetLoop h key hash h.nbuckets hash

/-- `hash_put` が入れる位置を探す繰り返し。一周しても止まらない。 -/
def hashPutLoop (h : Hash α) (key : List UInt8) : Nat → Nat → Except Stop Nat
  | 0, _ => .error .spin
  | fuel + 1, idx =>
      if (h.id idx).value.isSome ∧ strcmp (h.id idx).key key ≠ 0 then hashPutLoop h key fuel ((idx + 1) % h.nbuckets)
      else .ok idx

variable (store : σ → List UInt8 → Except Stop (σ × α))

/-- `hash_put`。`store` は、領域を確保してヒストグラムを写し、ポインタを返す部分である。 -/
def hashPut (fuel : Nat) (m : σ) (h : Hash α) (key val : List UInt8) (override : Bool) : Except Stop (σ × Hash α) := do
  let oldVal ← hashGet h key
  if oldVal.isSome ∧ override = false then .ok (m, h)
  else do
    let h := if oldVal.isSome then { h with nentries := h.nentries - 1 } else h
    let hash := hashFunction key h.nbuckets
    let idx ← hashPutLoop h key fuel hash
    let (m, value) ← store m val
    .ok (m, { h with
      id := Function.update h.id idx ⟨strncpy 40 key, some value⟩
      totalSize := h.totalSize + UInt64.ofNat histogramBytes
      nentries := h.nentries + 1 })

/-- `hash_put` の引数。鍵は 40 バイト未満で終わり、`val` は一つのヒストグラムである。 -/
structure Put where
  key : List UInt8
  val : List UInt8
  override : Bool
  short : 0 ∈ key.take 40
  size : val.length = histogramBytes

/-- `hash_put` の列。一つの `hash_put` の探索は `fuel` 回までとする。 -/
def hashPuts (fuel : Nat) : List Put → σ × Hash α → Except Stop (σ × Hash α)
  | [], r => .ok r
  | p :: ps, (m, h) => do
      let r ← hashPut store fuel m h p.key p.val p.override
      hashPuts fuel ps r

end

/-! ## `populate_database` -/

/-- データベースに入れる一人。`name` はファイル名の `_` の手前である。 -/
structure Identity where
  name : List UInt8
  histogram : List UInt8
  size : histogram.length = histogramBytes

/-- `snprintf(tmp, 40, "%s%d", key, x)`。39 文字までを書いて NUL で終わる。 -/
def dupKey (name : List UInt8) (x : Nat) : List UInt8 := (text name ++ [UInt8.ofNat (48 + x)]).take 39 ++ [0]

theorem dupKey_short (name : List UInt8) (x : Nat) : 0 ∈ (dupKey name x).take 40 := by
  have hlen : (dupKey name x).length ≤ 40 := by
    unfold dupKey
    rw [List.length_append, List.length_take, List.length_singleton]
    omega
  rw [List.take_of_length_le hlen]
  exact List.mem_append_right _ List.mem_cons_self

/-- 一人の `x` 番目の `hash_put`。 -/
def Identity.put (i : Identity) (x : Nat) : Put := ⟨dupKey i.name x, i.histogram, false, dupKey_short i.name x, i.size⟩

/-- `populate_database` が行う `hash_put` の列。 -/
def populate (ids : List Identity) : List Put := ids.flatMap fun i => (List.range dupNum).map i.put

/-! ## 非信頼側の表 -/

namespace Untrusted

/-- `my_malloc` と `memcpy`。ポインタはブロックの番号である。 -/
def store (heap : List (List UInt8)) (val : List UInt8) : Except Stop (List (List UInt8) × Nat) :=
  let ptr := heap.length
  let heap := heap ++ [List.replicate histogramBytes 0]
  .ok (heap.set ptr val, ptr)

/-- `hash_put`。 -/
def hashPut (fuel : Nat) (heap : List (List UInt8)) (h : Hash Nat) (key val : List UInt8) (override : Bool) :
    Except Stop (List (List UInt8) × Hash Nat) := Face.hashPut store fuel heap h key val override

/-- `hash_put` の列。 -/
def hashPuts (fuel : Nat) (puts : List Put) : Except Stop (List (List UInt8) × Hash Nat) :=
  Face.hashPuts store fuel puts ([], hashInit)

end Untrusted

/-! ## 信頼側の表 -/

namespace Trusted

section

variable (cfg : Config) (G : Gcm) (malloc : Nat → Int)

/-- SUVM の状態と、これまでの `memsys5Malloc` の回数。`malloc k` は `k` 回目の結果である。 -/
structure World where
  sys : Sys
  calls : Nat

/-- `memsys5Malloc` の最初の `n` 回の結果。どれも新しいブロックである。 -/
structure Blocks (n : Nat) : Prop where
  range : ∀ k < n, InPool cfg (malloc k) histogramBytes
  fresh : ∀ j < n, ∀ k < n, j ≠ k → malloc j + histogramBytes ≤ malloc k ∨ malloc k + histogramBytes ≤ malloc j

/-- `memsys5Malloc` と `memmove_aptr_reg`。 -/
def store (w : World) (val : List UInt8) : Except Stop (World × Int) := do
  let value := malloc w.calls
  let ptr := w.sys.aptrs.length
  let s ← w.sys.step cfg G id (.construct value histogramBytes)
  let s ← memmoveAptrReg cfg G s ptr val
  let s ← s.step cfg G id (.destroy ptr)
  .ok (⟨s, w.calls + 1⟩, value)

/-- `hash_put`。 -/
def hashPut (fuel : Nat) (w : World) (h : Hash Int) (key val : List UInt8) (override : Bool) :
    Except Stop (World × Hash Int) := Face.hashPut (store cfg G malloc) fuel w h key val override

/-- `hash_put` の列。 -/
def hashPuts (fuel : Nat) (puts : List Put) (s : Sys) : Except Stop (World × Hash Int) :=
  Face.hashPuts (store cfg G malloc) fuel puts (⟨s, 0⟩, hashInit)

/-- `do_one` が表のヒストグラムを `hist_from_hash` に写す部分。 -/
def load (s : Sys) (hist : List UInt8) (saved : Int) : Except Stop (Sys × List UInt8) := do
  let ptr := s.aptrs.length
  let s ← s.step cfg G id (.construct saved histogramBytes)
  let (s, hist) ← memmoveRegAptr cfg G s hist ptr
  let s ← s.step cfg G id (.destroy ptr)
  .ok (s, hist)

/-- `do_one` が要求のヒストグラムと比べるもの。鍵がなければ `empty_hist` である。 -/
def doOne (s : Sys) (hist : List UInt8) (h : Hash Int) (key : List UInt8) :
    Except Stop (Sys × List UInt8 × List UInt8) := do
  match ← hashGet h key with
  | some saved => do
      let (s, hist) ← load cfg G s hist saved
      .ok (s, hist, hist)
  | none => .ok (s, hist, List.replicate histogramBytes 0)

/-- 要求の列。比べたヒストグラムを順に返す。 -/
def doOnes (h : Hash Int) : List (List UInt8) → Sys → List UInt8 → Except Stop (Sys × List (List UInt8))
  | [], s, _ => .ok (s, [])
  | key :: keys, s, hist => do
      let (s, hist, compared) ← doOne cfg G s hist h key
      let (s, rest) ← doOnes h keys s hist
      .ok (s, compared :: rest)

end

end Trusted

/-! ## 表の意味 -/

/-- 鍵 `k` に入れた列。 -/
def putsOf (puts : List Put) (k : List UInt8) : List Put := puts.filter fun p => text p.key = k

/-- 鍵 `k` の答え。最初に入れた値か、そのあとに `override` を立てて入れた最後の値である。 -/
def answer (puts : List Put) (k : List UInt8) : Option (List UInt8) :=
  match putsOf puts k with
  | [] => none
  | p :: ps => some ((ps.filter Put.override).getLast?.getD p).val

/-- 入れた鍵。 -/
def keysOf (puts : List Put) : List (List UInt8) := puts.map fun p => text p.key

/-- `done` のあとに `puts` を行う間の `memsys5Malloc` の回数。 -/
def mallocs (done : List Put) : List Put → Nat
  | [] => 0
  | p :: ps => (if text p.key ∈ keysOf done ∧ p.override = false then 0 else 1) + mallocs (done ++ [p]) ps

end Eleos.Face
