import Eleos.Lib.Word
import Eleos.Lib.Ring

/-!
# 要求の待ち行列（`common/Queue.cpp`）

`front` と `rear` は 32 ビットの `int` で、初期化のあとは増えるだけである。配列の添字には C の剰余をそのまま使う。
ロック `_lock` は関数の入口で取り、出口で放すので、呼び出しを一つの遷移とする。
-/

namespace Eleos.Rpc

/-- `Queue::queue_size`。 -/
def queueSize : Nat := 1024

/-- `Queue`。`request*` のうち `NULL` でないものの型を `α` とする。 -/
structure Queue (α : Type) where
  front : Int
  rear : Int
  q : Nat → Option α

namespace Queue

variable {α : Type}

/-- `Queue::Queue`。 -/
def new : Queue α := { front := 0, rear := 0, q := fun _ => none }

/-- 配列 `q` の添字 `i % queue_size`。C の剰余は被除数の符号を持つので、範囲の外になりうる。 -/
def slot (i : Int) : Except Stop Nat :=
  if 0 ≤ i.tmod queueSize ∧ i.tmod queueSize < queueSize then .ok (i.tmod queueSize).toNat
  else .error .outOfBounds

/-- `Queue::enqueue`。 -/
def enqueue (s : Queue α) (elem : α) : Except Stop (Queue α) :=
  if int32 (s.rear - s.front) = queueSize then .error .abort
  else do
    let k ← slot s.rear
    .ok { s with q := Function.update s.q k (some elem), rear := int32 (s.rear + 1) }

/-- `Queue::dequeue`。空のときは `NULL` を返す。 -/
def dequeue (s : Queue α) : Except Stop (Option α × Queue α) :=
  if s.front = s.rear then .ok (none, s)
  else do
    let k ← slot s.front
    .ok (s.q k, { s with front := int32 (s.front + 1) })

end Queue

/-! ## 呼び出しの列 -/

/-- 待ち行列の呼び出し。 -/
inductive Call (α : Type) where
  | enqueue (elem : α)
  | dequeue

/-- 待ち行列と、これまでに加えた要求の列、取り出した要求の列。 -/
structure Hist (α : Type) where
  queue : Queue α
  enqueued : List α
  dequeued : List α

namespace Hist

variable {α : Type}

def new : Hist α := { queue := Queue.new, enqueued := [], dequeued := [] }

/-- まだ取り出していない要求の個数。 -/
def outstanding (s : Hist α) : Nat := s.enqueued.length - s.dequeued.length

def step (s : Hist α) : Call α → Except Stop (Hist α)
  | .enqueue x => do
      let q ← s.queue.enqueue x
      .ok { s with queue := q, enqueued := s.enqueued ++ [x] }
  | .dequeue => do
      let (r, q) ← s.queue.dequeue
      .ok { s with queue := q, dequeued := s.dequeued ++ r.toList }

/-- 呼び出しの列を順に実行する。 -/
def exec (s : Hist α) : List (Call α) → Except Stop (Hist α)
  | [] => .ok s
  | c :: cs => do
      let s' ← s.step c
      s'.exec cs

end Hist

/-- 空きがあるときに行う `enqueue` の回数。`n` は始めの未処理の個数で、満杯の `enqueue` で数え終わる。 -/
def accepted {α : Type} : Nat → List (Call α) → Nat
  | _, [] => 0
  | n, .enqueue _ :: cs => if n = queueSize then 0 else accepted (n + 1) cs + 1
  | n, .dequeue :: cs => accepted (n - 1) cs

/-- 未処理の要求の個数の最大値。`n` は始めの個数である。 -/
def peak {α : Type} : Nat → List (Call α) → Nat
  | n, [] => n
  | n, .enqueue _ :: cs => max n (peak (n + 1) cs)
  | n, .dequeue :: cs => max n (peak (n - 1) cs)

/-- 待ち行列が先入れ先出しであること。呼び出しの列 `cs` の途中のどの時点でも成り立つ四つの性質からなる。 -/
structure FifoLaw {α : Type} (cs : List (Call α)) : Prop where
  /-- 使う添字は配列の範囲にある。 -/
  inBounds : ∀ pre c post s, cs = pre ++ c :: post → Hist.new.exec pre = .ok s →
    s.step c ≠ .error .outOfBounds
  /-- `k` 番目に取り出した要求は、`k` 番目に加えた要求である。 -/
  inOrder : ∀ pre post s, cs = pre ++ post → Hist.new.exec pre = .ok s →
    ∀ k (h : k < s.dequeued.length), s.enqueued[k]? = some s.dequeued[k]
  /-- `dequeue` が `NULL` を返すのは、空のときである。 -/
  null_iff : ∀ pre post s, cs = pre ++ .dequeue :: post → Hist.new.exec pre = .ok s →
    ((∃ q, s.queue.dequeue = .ok (none, q)) ↔ s.outstanding = 0)
  /-- `enqueue` が `abort` に達するのは、満杯のときである。 -/
  abort_iff : ∀ pre x post s, cs = pre ++ .enqueue x :: post → Hist.new.exec pre = .ok s →
    (s.queue.enqueue x = .error .abort ↔ s.outstanding = queueSize)

end Eleos.Rpc
