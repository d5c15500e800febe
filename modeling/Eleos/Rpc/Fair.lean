import Eleos.Lib.Fair
import Eleos.Rpc.System

/-!
# 公平な実行での要求の受け渡し

どのスレッドも作業スレッドも、進めるままで放っておかれることはないとする。`rpc_ocall` を新しく呼ぶことまでは求めない。
-/

namespace Eleos.Rpc

variable {n : Nat}

/-- スレッド `t` が、`rpc_ocall` の中で一つ進む。 -/
def Sys.clientAct (t : Fin n) (s s' : Sys n) : Prop :=
  Step s s' ∧ s.clients t ≠ .idle ∧ s'.clients t ≠ s.clients t

/-- 作業スレッドが、要求の処理を一つ進める。 -/
def Sys.workerAct (s s' : Sys n) : Prop := Step s s' ∧ s'.worker ≠ s.worker

/-- 公平な無限の実行。何も起こらない時点があってもよい。錠で囲んだ処理は全体で一つの遷移なので、弱い公平さは、
`Queue::_lock` を待つスレッドがいつか錠を取れることを含む。 -/
structure FairRun (run : Nat → Sys n) : Prop where
  reach : Reach (run 0)
  step : ∀ i, run (i + 1) = run i ∨ Step (run i) (run (i + 1))
  client : ∀ t, WeaklyFair run (Sys.clientAct t)
  worker : WeaklyFair run Sys.workerAct

/-! ## 位置の変化 -/

/-- `rpc_ocall` の実行の位置の変化。 -/
inductive Client.Next : Client → Client → Prop where
  | call (f : Frame) : Next .idle (.called f)
  | mallocNull (f : Frame) : Next (.called f) .idle
  | malloc (f : Frame) (b : Nat) : Next (.called f) (.allocated f b)
  | fill (f : Frame) (b : Nat) : Next (.allocated f b) (.filled f b)
  | enqueue (f : Frame) (b : Nat) : Next (.filled f b) (.waiting f b)
  | acquire (f : Frame) (b : Nat) : Next (.waiting f b) (.locked f b)
  | free (f : Frame) (b : Nat) : Next (.locked f b) .idle

end Eleos.Rpc
