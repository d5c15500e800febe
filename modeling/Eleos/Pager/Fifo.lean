import Eleos.Pager.Cache

/-!
# `PageCache` の操作の列

追い出すページは、待ち行列の順に、参照のない最初のページである。ここでは `PageCache` だけの操作の列を扱う。
`UsedPagesQueue` の `front` と `rear` は `unsigned long` であり、64 ビットで折り返す計算も別に定める。
-/

namespace Eleos.Pager

/-- `front` と `rear` の折り返す `UsedPagesQueue::enqueue`。 -/
def UsedPagesQueue.enqueueWord (q : Ring Int) (elem : Int) : Except Stop (Ring Int) :=
  if q.count (2 ^ 64) = q.size then .error .abort else .ok ((q.push elem).wrap (2 ^ 64))

/-- `front` と `rear` の折り返す `UsedPagesQueue::dequeue`。 -/
def UsedPagesQueue.dequeueWord (q : Ring Int) : Except Stop (Int × Ring Int) :=
  if q.front = q.rear then .error .abort else .ok (q.top, q.pop.wrap (2 ^ 64))

/-- 操作。`evict` は `get_page_index_to_evict` と、返したページの `remove` からなる。 -/
inductive CacheOp where
  | tryAdd (p : Int) (epc : Nat)
  | evict
  | inc (p : Int)
  | dec (p : Int)

namespace PageCache

def step (c : PageCache) : CacheOp → Except Stop PageCache
  | .tryAdd p epc => do
      let (_, c) ← c.tryAdd p epc
      .ok c
  | .evict => do
      let (it, c) ← c.getPageIndexToEvict
      c.remove it.pageIndex
  | .inc p => c.incRefCount p
  | .dec p => c.decRefCount p

/-- 操作の前提。加えるページはプールの中にあり、参照の数は 0 から 255 までにとどまる。 -/
def Guard (c : PageCache) : CacheOp → Prop
  | .tryAdd p _ => 0 ≤ p ∧ p < c.backingStoreSize
  | .evict => True
  | .inc p => c.refCount p ≠ 255
  | .dec p => c.refCount p ≠ 0

instance (c : PageCache) (op : CacheOp) : Decidable (c.Guard op) :=
  match op with
  | .tryAdd p _ => inferInstanceAs (Decidable (0 ≤ p ∧ p < c.backingStoreSize))
  | .evict => inferInstanceAs (Decidable True)
  | .inc p => inferInstanceAs (Decidable (c.refCount p ≠ 255))
  | .dec p => inferInstanceAs (Decidable (c.refCount p ≠ 0))

/-- `PageCache::init` のあとの状態から到達できる状態。 -/
inductive Reach (numOfBuckets backingStoreSize pageCacheSize : Nat) : PageCache → Prop where
  | init : Reach numOfBuckets backingStoreSize pageCacheSize (init numOfBuckets backingStoreSize pageCacheSize)
  | step {c c' : PageCache} {op : CacheOp} : Reach numOfBuckets backingStoreSize pageCacheSize c → c.Guard op →
      c.step op = .ok c' → Reach numOfBuckets backingStoreSize pageCacheSize c'

/-- 表にあるページ。 -/
def Resident (c : PageCache) (p : Int) : Prop := ∃ b < c.table.size, ∃ it ∈ c.table.buckets b, it.pageIndex = p

/-- 待ち行列と表の関係、および追い出すページの選択。 -/
structure Fifo (c : PageCache) : Prop where
  -- 待ち行列には、表にあるページだけが、ちょうど一度ずつ並ぶ。
  queued : ∀ p, p ∈ c.usedPages.toList ↔ c.Resident p
  once : c.usedPages.toList.Nodup
  size : c.pageCacheSize = c.table.items.card
  -- どの項目も `page_index % m_hashmap_size` の連鎖にあり、重複はない。
  placed : ∀ b, ∀ it ∈ c.table.buckets b, b = bucketIndex c.table.size it.pageIndex
  distinct : ∀ b, ((c.table.buckets b).map Item.pageIndex).Nodup
  -- 選択は、並びの順に最初の参照のないページの項目を返し、飛ばしたページを順に後ろに回す。
  select : ∀ p, c.Resident p → c.refCount p = 0 → ∃ l₁ l₂ it r,
    c.usedPages.toList = l₁ ++ it.pageIndex :: l₂ ∧ (∀ q ∈ l₁, c.refCount q ≠ 0) ∧ c.refCount it.pageIndex = 0 ∧
    it ∈ c.table.buckets (bucketIndex c.table.size it.pageIndex) ∧
    c.getPageIndexToEvict = .ok (it, { c with usedPages := r }) ∧ r.toList = l₂ ++ l₁

end PageCache

end Eleos.Pager
