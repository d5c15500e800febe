import Eleos.Lib.Chain
import Eleos.Lib.Ring
import Eleos.Lib.Word

/-!
# ページのキャッシュ（`PageCache.h`、`CryptoCache.h`）

`PageCache` は、エンクレーブの中に置いたページの表と、追い出しの順を決める待ち行列、参照の数を持つ。
`CryptoCache` は、追い出したページのノンスとタグを持つ。連鎖のロックは関数の中で取って放すので省く。
-/

namespace Eleos.Pager

/-- `PAGE_SIZE`。 -/
def pageSize : Nat := 4096

theorem pageSize_pos : 0 < pageSize := by decide

/-- `MAX_NUM_OF_THREADS_OPTIMIZATION`。 -/
def maxNumOfThreadsOptimization : Nat := 10

/-- `page_index % m_hashmap_size`。`int` は `size_t` に変換される。 -/
def bucketIndex (hashmapSize : Nat) (pageIndex : Int) : Nat := (uint64 pageIndex).toNat % hashmapSize

/-! ## `UsedPagesQueue` -/

/-- `UsedPagesQueue::UsedPagesQueue`。 -/
def UsedPagesQueue.new (queueSize : Nat) : Ring Int :=
  { size := queueSize, front := 0, rear := 0, q := fun _ => -1 }

/-- `UsedPagesQueue::enqueue`。 -/
def UsedPagesQueue.enqueue (q : Ring Int) (elem : Int) : Except Stop (Ring Int) :=
  if q.rear - q.front = q.size then .error .abort else .ok (q.push elem)

/-- `UsedPagesQueue::dequeue`。 -/
def UsedPagesQueue.dequeue (q : Ring Int) : Except Stop (Int × Ring Int) :=
  if q.front = q.rear then .error .abort else .ok (q.top, q.pop)

/-! ## `PageCache` -/

/-- `item_t`。`epc` は `epc_arr` の位置である。 -/
structure Item where
  pageIndex : Int
  epc : Nat
  deriving DecidableEq

/-- `PageCache`。`refCount` の大きさは `backingStoreSize` である。 -/
structure PageCache where
  table : Table Int Item
  usedPages : Ring Int
  refCount : Int → UInt8
  backingStoreSize : Nat
  pageCacheSize : Nat

namespace PageCache

/-- `PageCache::init`。 -/
def init (numOfBuckets backingStoreSize pageCacheSize : Nat) : PageCache where
  table := { size := numOfBuckets, hash := bucketIndex numOfBuckets, buckets := fun _ => [] }
  usedPages := UsedPagesQueue.new pageCacheSize
  refCount := fun _ => 0
  backingStoreSize := backingStoreSize
  pageCacheSize := 0

/-- `m_ref_count[page_index]` の書き換え。 -/
def setRefCount (c : PageCache) (p : Int) (f : UInt8 → UInt8) : Except Stop PageCache :=
  if 0 ≤ p ∧ p < c.backingStoreSize then
    .ok { c with refCount := Function.update c.refCount p (f (c.refCount p)) }
  else .error .outOfBounds

/-- `PageCache::inc_ref_count`。 -/
def incRefCount (c : PageCache) (p : Int) : Except Stop PageCache := c.setRefCount p (· + 1)

/-- `PageCache::dec_ref_count`。 -/
def decRefCount (c : PageCache) (p : Int) : Except Stop PageCache := c.setRefCount p (· - 1)

/-- `PageCache::get`。 -/
def get (c : PageCache) (p : Int) : Option Item := c.table.get Item.pageIndex p

/-- `PageCache::get_page_index_to_evict` の繰り返しを `fuel` 回まで行う。 -/
def scan : Nat → PageCache → Except Stop (Item × PageCache)
  | 0, _ => .error .spin
  | fuel + 1, c => do
      let (p, q) ← UsedPagesQueue.dequeue c.usedPages
      if c.refCount p > 0 then
        let q ← UsedPagesQueue.enqueue q p
        scan fuel { c with usedPages := q }
      else
        match c.get p with
        | none => .error .abort
        | some it => .ok (it, { c with usedPages := q })

/-- `PageCache::get_page_index_to_evict`。空の待ち行列では `dequeue` の検査で止まる。空でない待ち行列を一周しても
見つからなければ、同じ状態に戻って終わらない。 -/
def getPageIndexToEvict (c : PageCache) : Except Stop (Item × PageCache) :=
  if c.usedPages.front = c.usedPages.rear then .error .abort
  else c.scan (c.usedPages.rear - c.usedPages.front)

/-- `PageCache::try_add`。すでにあれば偽を返す。 -/
def tryAdd (c : PageCache) (p : Int) (epc : Nat) : Except Stop (Bool × PageCache) :=
  match c.get p with
  | some _ => .ok (false, c)
  | none => do
      let q ← UsedPagesQueue.enqueue c.usedPages p
      .ok (true, { c with
        table := c.table.append Item.pageIndex ⟨p, epc⟩
        usedPages := q
        pageCacheSize := c.pageCacheSize + 1 })

/-- `PageCache::remove`。 -/
def remove (c : PageCache) (p : Int) : Except Stop PageCache :=
  match c.get p with
  | none => .error .abort
  | some _ => .ok { c with
      table := c.table.remove Item.pageIndex p
      pageCacheSize := c.pageCacheSize - 1 }

end PageCache

/-! ## `CryptoCache` -/

abbrev Nonce := Vector UInt8 12
abbrev Tag := Vector UInt8 16

theorem nonce_pos : 0 < 12 := by decide

/-- `crypto_item_t`。 -/
structure CryptoItem where
  pageIndex : Int
  nonce : Nonce
  mac : Tag

/-- `CryptoCache`。 -/
abbrev CryptoCache := Table Int CryptoItem

namespace CryptoCache

/-- `CryptoCache::init`。 -/
def init (numOfBuckets : Nat) : CryptoCache :=
  { size := numOfBuckets, hash := bucketIndex numOfBuckets, buckets := fun _ => [] }

/-- `CryptoCache::get`。 -/
def get (c : CryptoCache) (p : Int) : Option CryptoItem := Table.get CryptoItem.pageIndex c p

/-- `CryptoCache::add`。なければ 0 で埋めた要素を加える。 -/
def add (c : CryptoCache) (p : Int) : CryptoCache :=
  match c.get p with
  | some _ => c
  | none => Table.append CryptoItem.pageIndex c ⟨p, Vector.replicate 12 0, Vector.replicate 16 0⟩

/-- `add` の返す要素への、ノンスとタグの書き込み。 -/
def write (c : CryptoCache) (p : Int) (nonce : Nonce) (mac : Tag) : CryptoCache :=
  Table.modify CryptoItem.pageIndex c p fun x => { x with nonce := nonce, mac := mac }

end CryptoCache

end Eleos.Pager
