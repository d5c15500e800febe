import Eleos.Mem5.Heap
import Eleos.Pager.Host

/-!
# プールを共有する割り当てと追い出し

`memsys5Malloc` と `memsys5Free` の記録、割り当てたブロック、追い出したページの暗号文は、同じプールの中にある。
割り当ては 16 バイトの単位で行い、追い出しは 4096 バイトのページの単位でプールに書く。
割り当てたブロックは、`Aptr` を通して使うか、`rpc_ocall` の `request` のようにプールの番地で直接使う。
-/

namespace Eleos.Pool

open Eleos.Mem5 (Mem5Global Alloc memsys5Malloc memsys5Free memsys5Init mnReq)
open Eleos.Pager (Config Gcm Sys Key Nonce pageSize ramPage readPage tryEvictPage tagBit lastSeal)

/-- 割り当てたブロックの使い方。 -/
inductive Use where
  | aptr
  | direct
  deriving DecidableEq

/-- 割り当てたブロックと、その使い方。 -/
structure Owned where
  alloc : Alloc
  use : Use
  deriving DecidableEq

/-- ブロックのバイト。切り上げた大きさまでを含む。 -/
def Owned.Has (szAtom : Int) (o : Owned) (x : Nat) : Prop :=
  o.alloc.ptr ≤ x ∧ (x : Int) < o.alloc.ptr + o.alloc.size szAtom

/-- 全体の状態。プールの中身は `heap.zPool` である。 -/
structure World where
  heap : Mem5Global
  live : List Owned
  sys : Sys

/-- 操作。`store` は、直接使うブロックへのエンクレーブの中と外からの書き込みである。 -/
inductive Op where
  | malloc (use : Use) (nBytes : Int)
  | free (o : Owned)
  | store (o : Owned) (i : Nat) (v : UInt8)
  | aptr (op : Pager.Op)

namespace World

/-- `initialize_aptr` のあとの状態。`m` は `memsys5Init` の結果である。 -/
def init (cfg : Config) (m : Mem5Global) (epc : Nat → UInt8) (key : Key) (rand : Nat → Nonce) : World where
  heap := m
  live := []
  sys := Sys.init cfg epc m.zPool key rand

/-- いまのプールを見るページの管理。 -/
def shared (w : World) : Sys := { w.sys with state := { w.sys.state with pool := w.heap.zPool } }

def withPool (w : World) (z : Nat → UInt8) : World := { w with heap := { w.heap with zPool := z } }

/-- 一つの操作。 -/
def step (cfg : Config) (G : Gcm) (w : World) : Op → Except Stop World
  | .malloc use n => do
      let (m, r) ← memsys5Malloc w.heap n
      match r with
      | none => .ok { w with heap := m }
      | some p => .ok { w with heap := m, live := ⟨⟨p, n⟩, use⟩ :: w.live }
  | .free o => do
      let m ← memsys5Free w.heap (some o.alloc.ptr)
      .ok { w with heap := m, live := w.live.erase o }
  | .store o i v => .ok (w.withPool (Function.update w.heap.zPool (o.alloc.ptr.toNat + i) v))
  | .aptr op => do
      let s ← w.shared.step cfg G id op
      .ok ({ w with sys := s }.withPool s.state.pool)

def run (cfg : Config) (G : Gcm) (w : World) : List Op → Except Stop World
  | [] => .ok w
  | op :: ops => do
      let w' ← w.step cfg G op
      w'.run cfg G ops

end World

/-! ## 使い方の条件 -/

/-- 番地 `x` は、`Aptr` を通して使うブロックの中にある。 -/
def World.Inside (w : World) (x : Int) : Prop :=
  ∃ o ∈ w.live, o.use = .aptr ∧ o.alloc.ptr ≤ x ∧ x < o.alloc.ptr + o.alloc.nByte

/-- 操作の前提。`Aptr` で参照をたどるのは、解放していないブロックの中だけである。 -/
def Guard (cfg : Config) (w : World) : Op → Prop
  | .malloc _ _ => True
  | .free o => o ∈ w.live
  | .store o i _ => o ∈ w.live ∧ o.use = .direct ∧ (i : Int) < o.alloc.nByte
  | .aptr op => Pager.Guard cfg w.sys op ∧
      match op with
      | .read d | .write d _ => ∃ a, w.sys.get d = .ok a ∧ w.Inside a.addr
      | _ => True

/-- ページ `p` のバイト。 -/
def PageByte (p : Int) (x : Nat) : Prop := p * pageSize ≤ x ∧ (x : Int) < p * pageSize + pageSize

/-- ページ `p` の全体が、`Aptr` を通して使うブロックに入る。 -/
def World.Covers (w : World) (p : Int) : Prop :=
  ∀ x, PageByte p x → ∃ o ∈ w.live, o.use = .aptr ∧ o.Has w.heap.szAtom x

/-- 変更の印のある枠にあるページ。 -/
def World.Dirty (w : World) (p : Int) : Prop :=
  ∃ it, w.sys.state.l1.get p = some it ∧ tagBit (w.sys.state.epcArr it.epc) = true

/-- 追い出した暗号文をプールに持つページ。 -/
def World.Stored (w : World) (p : Int) : Prop := ∃ y, w.sys.state.llc.get p = some y

/-- `hint_write` の立った `Aptr` は、全体が `Aptr` のブロックに入るページだけを指す。
解放するブロックは、`K` の成り立つページに重ならない。 -/
def Careful (K : World → Int → Prop) (w : World) : Op → Prop
  | .free o => ∀ p, K w p → ∀ x, PageByte p x → ¬ o.Has w.heap.szAtom x
  | .aptr (.read d) | .aptr (.write d _) => ∀ a, w.sys.get d = .ok a → a.hintWrite = true → w.Covers (a.addr / pageSize)
  | _ => True

/-- 前提と条件 `C` を満たす操作だけで到達できる状態。 -/
inductive Reach (cfg : Config) (G : Gcm) (C : World → Op → Prop) : World → Prop where
  | init {z : Nat → UInt8} {pSize : Nat} {m : Mem5Global} (epc : Nat → UInt8) (key : Key) (rand : Nat → Nonce) :
      memsys5Init z pSize mnReq = .ok m → cfg.poolPages = pSize / pageSize →
      Reach cfg G C (World.init cfg m epc key rand)
  | step {w w' : World} {op : Op} : Reach cfg G C w → Guard cfg w op → C w op → w.step cfg G op = .ok w' →
      w'.sys.Within cfg → Reach cfg G C w'

/-! ## 追い出しが壊してはならないバイト -/

/-- 空きのブロックの `Mem5Link`、`aCtrl`、直接使うブロックのバイト。 -/
def World.Protected (w : World) (x : Nat) : Prop :=
  (∃ b ∈ w.heap.freeBlocks, b.start * w.heap.szAtom ≤ x ∧ (x : Int) < b.start * w.heap.szAtom + 8) ∨
  (w.heap.nBlock * w.heap.szAtom ≤ x ∧ (x : Int) < w.heap.nBlock * w.heap.szAtom + w.heap.nBlock) ∨
  ∃ o ∈ w.live, o.use = .direct ∧ o.Has w.heap.szAtom x

/-- プールを `z` にしても、守るべきバイトと、空きのブロックと `aCtrl` は変わらない。 -/
structure World.Spared (w : World) (z : Nat → UInt8) : Prop where
  bytes : ∀ x, w.Protected x → z x = w.heap.zPool x
  free : (w.withPool z).heap.freeBlocks = w.heap.freeBlocks
  ctrl : ∀ i, 0 ≤ i → i < w.heap.nBlock → (w.withPool z).heap.ctrl i = w.heap.ctrl i

/-- 追い出しは、守るべきバイトを変えない。 -/
structure World.Undamaged (cfg : Config) (G : Gcm) (w : World) : Prop where
  -- 枠にあるどのページの `try_evict_page` でも。
  evict : ∀ it st, w.sys.state.l1.get it.pageIndex = some it → tryEvictPage G w.shared.state it = .ok st →
    w.Spared st.pool
  -- 次の操作の途中の追い出しでも。
  next : ∀ op w', Guard cfg w (.aptr op) → w.step cfg G (.aptr op) = .ok w' → w.Spared w'.heap.zPool

/-! ## 追い出したページの読み戻し -/

/-- 枠にないページのプールの中身は、`CryptoCache` の項目のノンスとタグで最後に書き出した暗号文のままであり、
`Aptr` の操作は検査で止まらない。 -/
structure World.Intact (cfg : Config) (G : Gcm) (w : World) : Prop where
  cipher : ∀ p y, w.sys.state.llc.get p = some y → w.sys.state.l1.get p = none →
    ∃ e, lastSeal w.sys.state.trace p = some e ∧ e.nonce = y.nonce ∧ e.tag = y.mac ∧
      readPage w.heap.zPool (ramPage p) = e.cipher ∧
      G.encrypt w.sys.state.evictionKey e.nonce e.plain = some (e.cipher, e.tag)
  returns : ∀ op, Guard cfg w (.aptr op) → ∃ w', w.step cfg G (.aptr op) = .ok w'

end Eleos.Pool
