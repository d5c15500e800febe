import Eleos.Lib.Lock
import Eleos.Pager.Cache

/-!
# 連鎖のロックの中の命令（`PageCache.h`）

`inc_ref_count` と `dec_ref_count` を、連鎖のロックを持つ間の、数の読みと書きに分ける。錠は連鎖ごとにあり、
`m_ref_count` のうち同じ連鎖に入るページの数を守る。
-/

namespace Eleos.Pager

/-- 参照の数を変える呼び出し。 -/
inductive CountOp where
  | inc (p : Int)
  | dec (p : Int)
  deriving DecidableEq

/-- 参照を数えるページ。 -/
def CountOp.page : CountOp → Int
  | .inc p | .dec p => p

/-- `m_ref_count[page_index]` に書く値。 -/
def CountOp.apply (v : UInt8) : CountOp → UInt8
  | .inc _ => v + 1
  | .dec _ => v - 1

/-- `inc_ref_count` と `dec_ref_count`。 -/
def PageCache.count (c : PageCache) : CountOp → Except Stop PageCache
  | .inc p => c.incRefCount p
  | .dec p => c.decRefCount p

/-- ロックの中の実行の位置。 -/
inductive CountPc where
  | load (op : CountOp)
  | store (p : Int) (v : UInt8)
  | leave

/-- ロックの中の一命令。`store` は `backing_store_size` である。 -/
def countInstr (store : Nat) : CountPc → (Int → UInt8) → (CountPc × (Int → UInt8)) ⊕ Except Stop Unit
  | .load op, r =>
      if 0 ≤ op.page ∧ op.page < store then .inl (.store op.page (op.apply (r op.page)), r)
      else .inr (.error .outOfBounds)
  | .store p v, r => .inl (.leave, Function.update r p v)
  | .leave, _ => .inr (.ok ())

/-- `hashmapSize` 本の連鎖の錠。 -/
def countLocked (hashmapSize store : Nat) : Guarded Nat (Int → UInt8) CountPc (Except Stop Unit) CountOp where
  lock op := bucketIndex hashmapSize op.page
  start := .load
  step := countInstr store

end Eleos.Pager
