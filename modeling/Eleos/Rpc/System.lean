import Mathlib.Data.Fintype.Basic
import Eleos.Rpc.Queue

/-!
# 要求の受け渡し（`rpc_ocall.cpp`、`rpc_worker.cpp`）

`n` 個のスレッドが `rpc_ocall` をくり返し呼び、一つの作業スレッドが `rpc_thread` を回る。ロックで区切られた操作と、
要求のブロックへの読み書きを一つずつの遷移とし、その任意の交互実行を考える。
`memsys5Malloc` は、どのスレッドも使っていないブロックか `NULL` を返す。使われていないブロックの中身は、ほかの
利用者がいつ書き換えてもよい。
-/

namespace Eleos.Rpc

/-- `struct request`。 -/
structure Request where
  ocallIndex : Int
  buffer : Nat
  isDone : Int

/-- `rpc_ocall` の一回の呼び出しの通し番号と引数。 -/
structure Frame where
  call : Nat
  index : Int
  ms : Nat

/-- `rpc_ocall` の実行の位置。`req` は確保した要求のブロックである。 -/
inductive Client where
  | idle
  | called (f : Frame)
  | allocated (f : Frame) (req : Nat)
  | filled (f : Frame) (req : Nat)
  | waiting (f : Frame) (req : Nat)
  | locked (f : Frame) (req : Nat)

/-- `rpc_thread` と `do_work` の実行の位置。 -/
inductive Worker where
  | polling
  | taken (req : Nat)
  | ran (req : Nat)

/-- `rpc_ocall` が確保しているブロック。 -/
def Client.req? : Client → Option Nat
  | .idle | .called _ => none
  | .allocated _ b | .filled _ b | .waiting _ b | .locked _ b => some b

def Client.frame? : Client → Option Frame
  | .idle => none
  | .called f | .allocated f _ | .filled f _ | .waiting f _ | .locked f _ => some f

/-- 作業スレッドがこれから触るブロック。 -/
def Worker.req? : Worker → Option Nat
  | .polling => none
  | .taken b | .ran b => some b

/-- 全体の状態。`calls` から後ろは履歴で、遷移の条件には現れない。 -/
structure Sys (n : Nat) where
  hist : Hist Nat
  mem : Nat → Request
  clients : Fin n → Client
  worker : Worker
  swapThreadWork : Bool
  calls : List (Int × Nat)
  sent : List (Frame × Nat)
  handled : List (Int × Nat)
  returned : List Nat

namespace Sys

variable {n : Nat}

/-- `set_rpc_queue` のあとの状態。 -/
def init (mem : Nat → Request) : Sys n where
  hist := Hist.new
  mem := mem
  clients := fun _ => .idle
  worker := .polling
  swapThreadWork := false
  calls := []
  sent := []
  handled := []
  returned := []

def setClient (s : Sys n) (t : Fin n) (c : Client) : Sys n :=
  { s with clients := Function.update s.clients t c }

def setMem (s : Sys n) (b : Nat) (r : Request) : Sys n :=
  { s with mem := Function.update s.mem b r }

/-- どのスレッドもブロック `b` を確保していない。 -/
def Unused (s : Sys n) (b : Nat) : Prop := ∀ t, (s.clients t).req? ≠ some b

instance (s : Sys n) (b : Nat) : Decidable (s.Unused b) :=
  inferInstanceAs (Decidable (∀ t, (s.clients t).req? ≠ some b))

/-- 待ち行列の中の要求。 -/
def queued (s : Sys n) : List Nat := s.hist.enqueued.drop s.hist.dequeued.length

end Sys

/-- 一つの遷移。 -/
inductive Step {n : Nat} : Sys n → Sys n → Prop where
  | call {s t} (index : Int) (ms : Nat) : s.clients t = .idle →
      Step s { s.setClient t (.called ⟨s.calls.length, index, ms⟩) with calls := s.calls ++ [(index, ms)] }
  -- `memsys5Malloc` が `NULL` を返し、`SGX_ERROR_OCALL_NOT_ALLOWED` で戻る。
  | mallocNull {s t f} : s.clients t = .called f → Step s (s.setClient t .idle)
  | malloc {s t f} (b : Nat) : s.clients t = .called f → s.Unused b → Step s (s.setClient t (.allocated f b))
  | fill {s t f b} : s.clients t = .allocated f b →
      Step s ((s.setClient t (.filled f b)).setMem b ⟨f.index, f.ms, 1⟩)
  | enqueue {s t f b h} : s.clients t = .filled f b → s.hist.step (.enqueue b) = .ok h →
      Step s { s.setClient t (.waiting f b) with hist := h, sent := s.sent ++ [(f, b)] }
  -- `spin_lock(&req->is_done)` の比較と交換が成功する。
  | acquire {s t f b} : s.clients t = .waiting f b → (s.mem b).isDone = 0 →
      Step s ((s.setClient t (.locked f b)).setMem b { s.mem b with isDone := 1 })
  | free {s t f b} : s.clients t = .locked f b →
      Step s { s.setClient t .idle with returned := s.returned ++ [f.call] }
  | poll {s h q} : s.worker = .polling → s.hist.queue.dequeue = .ok (none, q) → s.hist.step .dequeue = .ok h →
      Step s { s with hist := h }
  | take {s h b q} : s.worker = .polling → s.hist.queue.dequeue = .ok (some b, q) →
      s.hist.step .dequeue = .ok h → Step s { s with hist := h, worker := .taken b }
  -- 番号 -1 は `g_swap_thread_work` を立てる特別な要求で、ほかは表の関数を呼ぶ。
  | run {s b} : s.worker = .taken b →
      Step s { s with
        worker := .ran b
        swapThreadWork := s.swapThreadWork || decide ((s.mem b).ocallIndex = -1)
        handled := s.handled ++ [((s.mem b).ocallIndex, (s.mem b).buffer)] }
  | unlock {s b} : s.worker = .ran b →
      Step s ({ s with worker := .polling }.setMem b { s.mem b with isDone := 0 })
  | other {s} (b : Nat) (r : Request) : s.Unused b → Step s (s.setMem b r)

/-- 到達できる状態。 -/
inductive Reach {n : Nat} : Sys n → Prop where
  | init (mem : Nat → Request) : Reach (Sys.init mem)
  | step {s s'} : Reach s → Step s s' → Reach s'

end Eleos.Rpc
