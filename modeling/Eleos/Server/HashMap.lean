import Eleos.Lib.Endian
import Eleos.Libc.Session

/-!
# パラメータサーバの表（`parameter_server`、`parameter_server_suvm` の `SimpleHashMap.h`）

一方は普通の配列を、他方は SUVM を通してプールの一つのブロックを使う。`long long` の値は 64 ビットの語とする。
`HASHMAPSIZE` は引数 `n` とする。
-/

namespace Eleos.Server

open Pager Libc

/-- `item_t` と `item_tl`。 -/
structure Item where
  key : UInt64
  val : UInt64
deriving DecidableEq

/-! ## 配列を使う表 -/

/-- `HashMap::hash_key`。 -/
def hashKey (n : Nat) (key : UInt64) : Nat := key.toNat % n

/-- `HashMap::HashMap`。`val` は初期化されないので、もとの値 `junk` のままである。 -/
def newBuckets (junk : Nat → UInt64) : Nat → Item := fun i => ⟨-1, junk i⟩

/-- `HashMap::add` の繰り返し。`i` 回目から始める。 -/
def add (n : Nat) (buckets : Nat → Item) (new : Item) : Nat → Nat → Except Stop (Nat → Item)
  | 0, _ => .error .spin
  | fuel + 1, i =>
      let keyhash := hashKey n (new.key + UInt64.ofNat i)
      let old := buckets keyhash
      if old.key = new.key ∨ old.key = -1 then .ok (Function.update buckets keyhash new)
      else add n buckets new fuel (i + 1)

/-- `ecall_init_hashmap` の繰り返し。`i` から `n` の手前までの鍵を加える。 -/
def initHashmap (n : Nat) (buckets : Nat → Item) (i : Nat) : Nat → Except Stop (Nat → Item)
  | 0 => .ok buckets
  | k + 1 => do
      let buckets ← add n buckets ⟨UInt64.ofNat i, 0⟩ n 0
      initHashmap n buckets (i + 1) k

/-- `HashMap::get` が返す位置。繰り返しの中で `loc` だけを進めて `i` を進めないので、最初の位置が違えば終わらない。 -/
def get (n : Nat) (buckets : Nat → Item) (key : UInt64) : Except Stop Nat :=
  let loc := hashKey n key
  if (buckets loc).key = key then .ok loc else .error .spin

/-- `HashMap::get` の繰り返し。`loc` は進むが、比べる要素 `i` は変わらない。 -/
def getLoop (n : Nat) (buckets : Nat → Item) (key : UInt64) (i : Nat) : Nat → Nat → Except Stop Nat
  | 0, _ => .error .spin
  | fuel + 1, loc => if (buckets i).key = key then .ok i else getLoop n buckets key i fuel ((loc + 1) % n)

/-- `HashMap::add` の列。一つの `add` の繰り返しは `fuel` 回までとする。 -/
def addAll (n fuel : Nat) (buckets : Nat → Item) : List Item → Except Stop (Nat → Item)
  | [] => .ok buckets
  | it :: items => do
      let buckets ← add n buckets it fuel 0
      addAll n fuel buckets items

/-- 鍵 `k` に最後に加えた値。 -/
def lastVal (items : List Item) (k : UInt64) : Option UInt64 :=
  (items.reverse.find? fun it => it.key = k).map Item.val

/-- どの `add` も終わり、加えたどの鍵についても `get` が終わって、最後に加えた値の項目を返す。 -/
def FindsAll (n : Nat) (items : List Item) : Prop :=
  ∀ junk, ∃ fuel t, addAll n fuel (newBuckets junk) items = .ok t ∧ ∀ k ∈ items.map Item.key, ∃ fuel loc,
    getLoop n t k (hashKey n k) fuel (hashKey n k) = .ok loc ∧ (t loc).key = k ∧ lastVal items k = some (t loc).val

/-- `test_llc_internal` の一つの要求。 -/
def handle (n : Nat) (buckets : Nat → Item) (key : UInt64) : Except Stop (Nat → Item) := do
  let loc ← get n buckets key
  .ok (Function.update buckets loc ⟨(buckets loc).key, (buckets loc).val + 1⟩)

/-- 要求の列の処理。 -/
def serve (n : Nat) (buckets : Nat → Item) : List UInt64 → Except Stop (Nat → Item)
  | [] => .ok buckets
  | key :: keys => do
      let buckets ← handle n buckets key
      serve n buckets keys

/-! ## SUVM を使う表 -/

section

variable (cfg : Config) (G : Gcm)

/-- 項目の 16 バイト。 -/
def Item.bytes (it : Item) : List UInt8 := wordBytes it.key ++ wordBytes it.val

/-- コンストラクタの繰り返し。`d` は `m_aptr` の番号である。 -/
def populate (d : Nat) (i : Nat) : Nat → Sys → Except Stop Sys
  | 0, s => .ok s
  | k + 1, s => do
      let (s, a, x) ← touch cfg G s d
      if 4080 < a.offset then .error .abort
      else do
        let s := { s with state := storeBytes s.state x a.addr (Item.bytes ⟨UInt64.ofNat i, 0⟩) }
        let s ← advance s d 16
        populate d (i + 1) k s

/-- `HashMap::HashMap`。`x` は `memsys5Malloc` の返すブロックの番地である。`m_aptr` に一時オブジェクトを代入する。 -/
def suvmNew (s : Sys) (junk : Aptr) (x : Int) (n : Nat) : Except Stop Sys := do
  let d := s.aptrs.length
  let s ← s.step cfg G id (.null junk)
  let s ← s.step cfg G id (.construct x (n * 16))
  let s ← s.step cfg G id (.assign d (d + 1))
  let s ← s.step cfg G id (.destroy (d + 1))
  let s ← s.step cfg G id (.hint d true)
  populate cfg G d 0 n s

/-- `HashMap::get` の繰り返し。鍵が一致すれば `val` を一つ増やして戻る。 -/
def suvmGetLoop (x : Int) (n : Nat) (key : UInt64) : Nat → Nat → Sys → Except Stop Sys
  | 0, _, _ => .error .spin
  | fuel + 1, loc, s => do
      let d := s.aptrs.length
      let s ← s.step cfg G id (.construct x (n * 16))
      let s ← s.step cfg G id (.hint d true)
      let s ← advance s d (loc * 16)
      let (s, a, p) ← touch cfg G s d
      let (t, ks) := loadBytes s.state p a.addr 8
      if ofWordBytes ks = key then
        let (t, vs) := loadBytes t (p + 8) (a.addr + 8) 8
        let t := storeBytes t (p + 8) (a.addr + 8) (wordBytes (ofWordBytes vs + 1))
        { s with state := t }.step cfg G id (.destroy d)
      else do
        let s ← { s with state := t }.step cfg G id (.destroy d)
        suvmGetLoop x n key fuel ((loc + 1) % n) s

/-- `HashMap::get`。`hash_key` は鍵をそのまま位置とする。 -/
def suvmGet (s : Sys) (x : Int) (n : Nat) (key : UInt64) : Except Stop Sys :=
  suvmGetLoop cfg G x n key n key.toNat s

/-- 要求の列の処理。 -/
def suvmServe (x : Int) (n : Nat) : List UInt64 → Sys → Except Stop Sys
  | [], s => .ok s
  | key :: keys, s => do
      let s ← suvmGet cfg G s x n key
      suvmServe x n keys s

/-- 表を置くブロックの条件。 -/
structure Placed (s : Sys) (x : Int) (n : Nat) : Prop where
  aligned : x % pageSize = 0
  start : x < cfg.poolPages * pageSize
  range : InPool cfg x (n * 16)
  small : n * 16 ≤ 0x40000000
  -- `m_aptr` と一時オブジェクトの二つの `Aptr` をつなぐ余地がある。
  room : ∀ p q, RoomFor cfg s [p, q]

end

/-- SUVM を通して見える `n` バイト。 -/
def bytesAt (G : Gcm) (s : Sys) (y : Int) : Nat → Option (List UInt8)
  | 0 => some []
  | n + 1 => do
      let v ← byteAt G s y
      let vs ← bytesAt G s (y + 1) n
      some (v :: vs)

/-- SUVM を通して見える、番地 `y` の項目。 -/
def itemAt (G : Gcm) (s : Sys) (y : Int) : Option Item := do
  let ks ← bytesAt G s y 8
  let vs ← bytesAt G s (y + 8) 8
  some ⟨ofWordBytes ks, ofWordBytes vs⟩

end Eleos.Server
