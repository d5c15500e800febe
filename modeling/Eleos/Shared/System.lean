import Eleos.Pager.Host
import Eleos.Threads.System

/-!
# 複数のスレッドによる読み書き

`Threads` の遷移に、枠の中身、変更の印、暗号化と復号、ホストによるプールの書き換えを加える。ロックで区切られた一つずつの操作を
遷移とする。復号はロックの外にあるので、枠を取る操作とも表に加える操作とも別の遷移である。
-/

namespace Eleos.Shared

open Eleos.Pager

/-! ## スレッド -/

/-- つながっている `Aptr` のページと枠。`marked` は、`hint_write` のある `deref` を済ませたことを表す。 -/
structure Link where
  page : Int
  epc : Nat
  marked : Bool

/-- 実行の位置。 -/
inductive Pc where
  | run (pc : Threads.Pc)
  -- 空きの枠 `epc` を取った。`CryptoCache` を調べ、あれば復号する。
  | fill (p : Int) (epc : Nat)
  deriving DecidableEq

structure Thread where
  pc : Pc
  links : List Link

/-- 全体の状態。`mem.trace` の読み込みの項目は、復号したときに加わる。 -/
structure Machine (n : Nat) where
  mem : State
  threads : Fin n → Thread

variable {n : Nat}

/-- `initialize_aptr` のあとの状態。 -/
def Machine.init (cfg : Config) (epc pool : Nat → UInt8) (key : Key) (rand : Nat → Nonce) : Machine n where
  mem := State.init cfg epc pool key rand
  threads := fun _ => ⟨.run .idle, []⟩

/-- スレッド `t` の一つの操作の結果。 -/
def Machine.put (m : Machine n) (t : Fin n) (s : State) (th : Thread) : Machine n :=
  { mem := s, threads := Function.update m.threads t th }

/-! ## 遷移 -/

/-- 休んでいるスレッドが始める処理。`k` は `links` の中の位置、`o` はページの中の位置である。 -/
inductive Act where
  | fault (k : Option Nat) (p : Int)
  | reset (k : Nat)
  -- `hint_write` のある `deref` の、変更の印。
  | mark (k : Nat)
  -- `deref` の返す番地を通した一バイトの読み書き。
  | read (k : Nat) (o : Fin pageSize)
  | write (k : Nat) (o : Fin pageSize) (v : UInt8)

/-- `deref` の返す番地。 -/
def Link.addr (s : State) (l : Link) (o : Fin pageSize) : Nat := clearTag (s.epcArr l.epc) + o

/-- 休んでいるスレッドの開始。 -/
def Machine.start (m : Machine n) (t : Fin n) (act : Act) : Except Stop (Machine n) :=
  let s := m.mem
  let links := (m.threads t).links
  match act with
  | .fault none p => .ok (m.put t s ⟨.run (.inc p), links⟩)
  | .fault (some k) p =>
      match links[k]? with
      | none => .error .noObject
      | some l => .ok (m.put t s ⟨.run (.dec l.page p), links.eraseIdx k⟩)
  | .reset k =>
      match links[k]? with
      | none => .error .noObject
      | some l => .ok (m.put t s ⟨.run (.release l.page), links.eraseIdx k⟩)
  | .mark k =>
      match links[k]? with
      | none => .error .noObject
      | some l =>
          if s.epcArr l.epc = 0 then .error .abort
          else .ok (m.put t { s with epcArr := Function.update s.epcArr l.epc (setTag (s.epcArr l.epc)) }
            ⟨.run .idle, links.set k { l with marked := true }⟩)
  | .read k o =>
      match links[k]? with
      | none => .error .noObject
      | some l => .ok (m.put t { s with trace := .read (l.page * pageSize + o) (s.epc (l.addr s o)) :: s.trace }
          ⟨.run .idle, links⟩)
  | .write k o v =>
      match links[k]? with
      | none => .error .noObject
      | some l => .ok (m.put t { s with
          epc := Function.update s.epc (l.addr s o) v
          trace := .write (l.page * pageSize + o) v :: s.trace } ⟨.run .idle, links⟩)

/-- `try_evict_page` の、連鎖のロックを持つ間の部分。枠を空きの並びに返す前で終わる。 -/
def evictLocked (G : Gcm) (s : State) (pce : Item) : Except Stop State := do
  let t ← tryEvictPage G s pce
  .ok { t with freeEpcPages := s.freeEpcPages }

/-- 途中のスレッドの一つの操作。 -/
def Machine.advance (cfg : Config) (G : Gcm) (m : Machine n) (t : Fin n) : Except Stop (Machine n) :=
  let s := m.mem
  let links := (m.threads t).links
  match (m.threads t).pc with
  | .run .idle => .ok (m.put t s ⟨.run .idle, links⟩)
  | .run (.release old) => do
      let c ← s.l1.decRefCount old
      .ok (m.put t { s with l1 := c } ⟨.run .idle, links⟩)
  | .run (.dec old p) => do
      let c ← s.l1.decRefCount old
      .ok (m.put t { s with l1 := c } ⟨.run (.inc p), links⟩)
  | .run (.inc p) => do
      let c ← s.l1.incRefCount p
      .ok (m.put t { s with l1 := c } ⟨.run (.get p), links⟩)
  | .run (.get p) =>
      match s.l1.get p with
      | some it => .ok (m.put t s ⟨.run .idle, ⟨p, it.epc, false⟩ :: links⟩)
      | none => .ok (m.put t s ⟨.run (.check p), links⟩)
  | .run (.check p) =>
      if cfg.cacheCapacity - maxNumOfThreadsOptimization ≤ s.l1.pageCacheSize then
        .ok (m.put t s ⟨.run (.dequeue p), links⟩)
      else .ok (m.put t s ⟨.run (.pop p), links⟩)
  | .run (.dequeue p) => do
      let (q, r) ← UsedPagesQueue.dequeue s.l1.usedPages
      .ok (m.put t { s with l1 := { s.l1 with usedPages := r } } ⟨.run (.select p q), links⟩)
  -- 連鎖のロックを持ったまま、参照を調べ、暗号化し、項目を外す。
  | .run (.select p q) =>
      if s.l1.refCount q > 0 then .ok (m.put t s ⟨.run (.enqueue p q), links⟩)
      else
        match s.l1.get q with
        | none => .error .abort
        | some it => do
            let s' ← evictLocked G s it
            .ok (m.put t s' ⟨.run (.push p it.epc), links⟩)
  | .run (.enqueue p q) => do
      let r ← UsedPagesQueue.enqueue s.l1.usedPages q
      .ok (m.put t { s with l1 := { s.l1 with usedPages := r } } ⟨.run (.dequeue p), links⟩)
  | .run (.push p i) => .ok (m.put t { s with freeEpcPages := i :: s.freeEpcPages } ⟨.run (.pop p), links⟩)
  | .run (.pop p) => do
      let (i, s') ← popFree s
      .ok (m.put t s' ⟨.fill p i, links⟩)
  | .fill p i => do
      let (s', e) ← fillSlot G s p i
      .ok (m.put t { s' with trace := .load p i e (readPage s'.epc (s'.epcArr i)) :: s'.trace }
        ⟨.run (.tryAdd p i), links⟩)
  | .run (.tryAdd p i) => do
      let (added, c) ← s.l1.tryAdd p i
      if added then .ok (m.put t { s with l1 := c } ⟨.run .idle, ⟨p, i, false⟩ :: links⟩)
      else .ok (m.put t { s with l1 := c } ⟨.run (.found p i), links⟩)
  | .run (.found p i) =>
      match s.l1.get p with
      | none => .error .abort
      | some it => .ok (m.put t s ⟨.run (.giveBack p i it.epc), links⟩)
  | .run (.giveBack p i e) =>
      .ok (m.put t { s with freeEpcPages := i :: s.freeEpcPages } ⟨.run .idle, ⟨p, e, false⟩ :: links⟩)

/-! ## 中身を省いた状態 -/

def Pc.erase : Pc → Threads.Pc
  | .run pc => pc
  | .fill p i => .tryAdd p i

def Thread.erase (th : Thread) : Threads.Thread := ⟨th.pc.erase, th.links.map fun l => (l.page, l.epc)⟩

/-- 枠の中身と変更の印を省いた状態。 -/
def Machine.world (m : Machine n) : Threads.World n where
  cache := m.mem.l1
  freeEpcPages := m.mem.freeEpcPages
  threads := fun t => (m.threads t).erase

/-! ## 実行 -/

/-- 始める処理の前提。書き込みは、`hint_write` のある `deref` を済ませた `Aptr` で行う。 -/
def Act.Valid (cfg : Config) (th : Thread) : Act → Prop
  | .fault k p => (∀ j, k = some j → j < th.links.length) ∧ 0 ≤ p ∧ p < cfg.poolPages
  | .reset k | .mark k | .read k _ => k < th.links.length
  | .write k _ _ => ∃ l, th.links[k]? = some l ∧ l.marked = true

/-- ホストに許すプールの書き換え。 -/
abbrev Tampering := (Nat → UInt8) → (Nat → UInt8) → Prop

/-- 書き換えない。 -/
def honest : Tampering := fun pool pool' => pool' = pool

/-- どのようにも書き換える。 -/
def hostile : Tampering := fun _ _ => True

/-- 一つの遷移。 -/
inductive Step (cfg : Config) (G : Gcm) (H : Tampering) (m : Machine n) : Except Stop (Machine n) → Prop where
  | start (t : Fin n) (act : Act) : (m.threads t).pc = .run .idle → act.Valid cfg (m.threads t) →
      Step cfg G H m (m.start t act)
  | advance (t : Fin n) : Step cfg G H m (m.advance cfg G t)
  | host (pool : Nat → UInt8) : H m.mem.pool pool → Step cfg G H m (.ok { m with mem := { m.mem with pool := pool } })

/-- 一つのページへの参照が 255 以下である実行で到達できる状態。 -/
inductive Reach (cfg : Config) (G : Gcm) (H : Tampering) : Machine n → Prop where
  | init (epc pool : Nat → UInt8) (key : Key) (rand : Nat → Nonce) : Reach cfg G H (Machine.init cfg epc pool key rand)
  | step {m m' : Machine n} : Reach cfg G H m → Step cfg G H m (.ok m') → (∀ p, m'.world.refs p ≤ 255) →
      Reach cfg G H m'

/-! ## 手順に沿う実行 -/

/-- スレッドの一つの操作。`some act` は処理 `act` の開始である。 -/
abbrev Move (n : Nat) := Fin n × Option Act

def Machine.move (cfg : Config) (G : Gcm) (m : Machine n) : Move n → Except Stop (Machine n)
  | (t, some act) => m.start t act
  | (t, none) => m.advance cfg G t

def Machine.run (cfg : Config) (G : Gcm) (m : Machine n) : List (Move n) → Except Stop (Machine n)
  | [] => .ok m
  | mv :: mvs => do
      let m ← m.move cfg G mv
      m.run cfg G mvs

/-- 操作の前提。 -/
def Machine.Allowed (cfg : Config) (m : Machine n) : Move n → Prop
  | (t, some act) => (m.threads t).pc = .run .idle ∧ act.Valid cfg (m.threads t)
  | (_, none) => True

/-- どの操作も前提を満たし、そのあとどのスレッドの `Aptr` も `k` 個以下である。 -/
def Machine.Along (cfg : Config) (G : Gcm) (k : Nat) (m : Machine n) : List (Move n) → Prop
  | [] => True
  | mv :: mvs => m.Allowed cfg mv ∧
      ∀ m', m.move cfg G mv = .ok m' → (∀ t, (m'.threads t).links.length ≤ k) ∧ m'.Along cfg G k mvs

instance (cfg : Config) (th : Thread) : (act : Act) → Decidable (act.Valid cfg th)
  | .fault none p => decidable_of_iff (0 ≤ p ∧ p < cfg.poolPages) (by simp [Act.Valid])
  | .fault (some k) p =>
      decidable_of_iff (k < th.links.length ∧ 0 ≤ p ∧ p < cfg.poolPages) (by simp [Act.Valid])
  | .reset k | .mark k | .read k _ => inferInstanceAs (Decidable (k < th.links.length))
  | .write k _ _ => decidable_of_iff (th.links[k]?.any Link.marked = true) (by simp [Act.Valid, Option.any_eq_true])

instance (cfg : Config) (m : Machine n) : (mv : Move n) → Decidable (m.Allowed cfg mv)
  | (t, some act) => inferInstanceAs (Decidable ((m.threads t).pc = .run .idle ∧ act.Valid cfg (m.threads t)))
  | (_, none) => isTrue trivial

instance decidableAlong (cfg : Config) (G : Gcm) (k : Nat) :
    (m : Machine n) → (mvs : List (Move n)) → Decidable (m.Along cfg G k mvs)
  | _, [] => isTrue trivial
  | m, mv :: mvs =>
      have (m' : Machine n) : Decidable (m'.Along cfg G k mvs) := decidableAlong cfg G k m' mvs
      inferInstanceAs (Decidable (m.Allowed cfg mv ∧
        ∀ m', m.move cfg G mv = .ok m' → (∀ t, (m'.threads t).links.length ≤ k) ∧ m'.Along cfg G k mvs))

end Eleos.Shared
