import Eleos.Lib.Lock
import Eleos.Rpc.Queue

/-!
# 待ち行列のロックの中の命令（`common/Queue.cpp`、`common/SyncUtils.cpp`）

`Queue::enqueue` と `Queue::dequeue` を、`spin_lock` と `spin_unlock` の間の一つずつの読み書きに分ける。
`spin_lock` の `__sync_bool_compare_and_swap` は、空いている錠を取る一つの遷移である。
-/

namespace Eleos.Rpc

namespace Queue

variable {α : Type}

/-- 待ち行列の一つの呼び出し。`Queue` のロックの中を一つの操作と見る。 -/
def call (s : Queue α) : Call α → Except Stop (Option α × Queue α)
  | .enqueue x => do
      let s' ← s.enqueue x
      .ok (none, s')
  | .dequeue => s.dequeue

/-- 呼び出しを順に行い、結果の並びを返す。 -/
def calls (s : Queue α) : List (Call α) → Except Stop (List (Option α) × Queue α)
  | [] => .ok ([], s)
  | c :: cs => do
      let (r, s) ← s.call c
      let (rs, s) ← s.calls cs
      .ok (r :: rs, s)

/-- ロックの中の実行の位置。 -/
inductive Pc (α : Type) where
  -- 満杯か空かの検査。
  | enter (c : Call α)
  -- `q[rear % queue_size] = elem` と、`++rear` の読みと書き。
  | store (x : α)
  | readRear
  | writeRear (v : Int)
  -- `result = q[front % queue_size]` と、`++front` の読みと書き。
  | load
  | readFront (r : Option α)
  | writeFront (r : Option α) (v : Int)
  | leave (r : Option α)

/-- ロックの中の一命令。 -/
def instr : Pc α → Queue α → (Pc α × Queue α) ⊕ Except Stop (Option α)
  | .enter (.enqueue x), s =>
      if int32 (s.rear - s.front) = queueSize then .inr (.error .abort) else .inl (.store x, s)
  | .enter .dequeue, s => if s.front = s.rear then .inr (.ok none) else .inl (.load, s)
  | .store x, s =>
      match slot s.rear with
      | .error e => .inr (.error e)
      | .ok k => .inl (.readRear, { s with q := Function.update s.q k (some x) })
  | .readRear, s => .inl (.writeRear s.rear, s)
  | .writeRear v, s => .inl (.leave none, { s with rear := int32 (v + 1) })
  | .load, s =>
      match slot s.front with
      | .error e => .inr (.error e)
      | .ok k => .inl (.readFront (s.q k), s)
  | .readFront r, s => .inl (.writeFront r s.front, s)
  | .writeFront r v, s => .inl (.leave r, { s with front := int32 (v + 1) })
  | .leave r, _ => .inr (.ok r)

/-- `Queue` のロック。錠は `_lock` の一つである。 -/
def locked (α : Type) : Guarded Unit (Queue α) (Pc α) (Except Stop (Option α)) (Call α) where
  lock := fun _ => ()
  start := .enter
  step := instr

end Queue

/-- 終わった呼び出しのうち `enqueue` に渡した要求。 -/
def offered {α : Type} (log : List (Call α × Except Stop (Option α))) : List α :=
  log.filterMap fun x =>
    match x.1 with
    | .enqueue a => some a
    | .dequeue => none

/-- 終わった呼び出しのうち `dequeue` が返した要求。 -/
def delivered {α : Type} (log : List (Call α × Except Stop (Option α))) : List α :=
  log.filterMap fun x =>
    match x with
    | (.dequeue, .ok r) => r
    | _ => none

end Eleos.Rpc
