import Eleos.Lib.Tally
import Eleos.Pager.Aptr

/-!
# 複数のスレッドによるページの管理

`n` 個のスレッドが、それぞれ自分の `Aptr` について `deref` と `reset` を行う。ロックで区切られた一つずつの操作を遷移とし、
その任意の交互実行を考える。暗号の呼び出しは成功するものとし、枠の中身と変更の印は省く。
-/

namespace Eleos.Threads

open Eleos.Pager

/-- `page_fault` と `reset` の実行の位置。`p` は参照をたどるページである。 -/
inductive Pc where
  | idle
  -- `reset` の `dec_ref_count`。
  | release (old : Int)
  -- `page_fault` の `dec_ref_count` と `inc_ref_count`。
  | dec (old p : Int)
  | inc (p : Int)
  | get (p : Int)
  -- `m_page_cache_size` の検査。
  | check (p : Int)
  -- `get_page_index_to_evict` の繰り返し。`q` は取り出したページである。
  | dequeue (p : Int)
  | select (p q : Int)
  | enqueue (p q : Int)
  -- `g_free_epc_pages` への返却と取り出し。
  | push (p : Int) (epc : Nat)
  | pop (p : Int)
  | tryAdd (p : Int) (epc : Nat)
  -- `try_add` が偽を返したあと。
  | found (p : Int) (epc : Nat)
  | giveBack (p : Int) (epc other : Nat)
  deriving DecidableEq

/-- スレッドの実行の位置と、つながっている `Aptr` のページと枠。途中の `Aptr` は含まない。 -/
structure Thread where
  pc : Pc
  links : List (Int × Nat)

/-- 全体の状態。 -/
structure World (n : Nat) where
  cache : PageCache
  freeEpcPages : List Nat
  threads : Fin n → Thread

variable {n : Nat}

/-- `initialize_aptr` のあとの状態。 -/
def World.init (cfg : Config) : World n where
  cache := PageCache.init (cfg.cacheCapacity * 10) cfg.poolPages cfg.cacheCapacity
  freeEpcPages := (List.range cfg.cacheCapacity).reverse
  threads := fun _ => ⟨.idle, []⟩

/-- スレッド `t` の一つの操作の結果。 -/
def World.put (s : World n) (t : Fin n) (c : PageCache) (free : List Nat) (th : Thread) : World n :=
  { cache := c, freeEpcPages := free, threads := Function.update s.threads t th }

/-- 休んでいるスレッドが始める処理。番号は `links` の中の位置である。 -/
inductive Act where
  -- つながっていない、またはつながっている `Aptr` で、ページ `p` の `page_fault` を始める。
  | fault (k : Option Nat) (p : Int)
  | reset (k : Nat)

/-- 休んでいるスレッドの開始。 -/
def World.start (s : World n) (t : Fin n) : Act → Except Stop (World n)
  | .fault none p => .ok (s.put t s.cache s.freeEpcPages ⟨.inc p, (s.threads t).links⟩)
  | .fault (some k) p =>
      match (s.threads t).links[k]? with
      | none => .error .noObject
      | some l => .ok (s.put t s.cache s.freeEpcPages ⟨.dec l.1 p, (s.threads t).links.eraseIdx k⟩)
  | .reset k =>
      match (s.threads t).links[k]? with
      | none => .error .noObject
      | some l => .ok (s.put t s.cache s.freeEpcPages ⟨.release l.1, (s.threads t).links.eraseIdx k⟩)

/-- 途中のスレッドの一つの操作。 -/
def World.advance (cfg : Config) (s : World n) (t : Fin n) : Except Stop (World n) :=
  let links := (s.threads t).links
  match (s.threads t).pc with
  | .idle => .ok s
  | .release old => do
      let c ← s.cache.decRefCount old
      .ok (s.put t c s.freeEpcPages ⟨.idle, links⟩)
  | .dec old p => do
      let c ← s.cache.decRefCount old
      .ok (s.put t c s.freeEpcPages ⟨.inc p, links⟩)
  | .inc p => do
      let c ← s.cache.incRefCount p
      .ok (s.put t c s.freeEpcPages ⟨.get p, links⟩)
  | .get p =>
      match s.cache.get p with
      | some it => .ok (s.put t s.cache s.freeEpcPages ⟨.idle, (p, it.epc) :: links⟩)
      | none => .ok (s.put t s.cache s.freeEpcPages ⟨.check p, links⟩)
  | .check p =>
      if cfg.cacheCapacity - maxNumOfThreadsOptimization ≤ s.cache.pageCacheSize then
        .ok (s.put t s.cache s.freeEpcPages ⟨.dequeue p, links⟩)
      else .ok (s.put t s.cache s.freeEpcPages ⟨.pop p, links⟩)
  | .dequeue p => do
      let (q, r) ← UsedPagesQueue.dequeue s.cache.usedPages
      .ok (s.put t { s.cache with usedPages := r } s.freeEpcPages ⟨.select p q, links⟩)
  -- 連鎖のロックを持ったまま、参照を調べ、暗号化し、項目を外す。
  | .select p q =>
      if s.cache.refCount q > 0 then .ok (s.put t s.cache s.freeEpcPages ⟨.enqueue p q, links⟩)
      else
        match s.cache.get q with
        | none => .error .abort
        | some it => do
            let c ← s.cache.remove q
            .ok (s.put t c s.freeEpcPages ⟨.push p it.epc, links⟩)
  | .enqueue p q => do
      let r ← UsedPagesQueue.enqueue s.cache.usedPages q
      .ok (s.put t { s.cache with usedPages := r } s.freeEpcPages ⟨.dequeue p, links⟩)
  | .push p i => .ok (s.put t s.cache (i :: s.freeEpcPages) ⟨.pop p, links⟩)
  | .pop p =>
      match s.freeEpcPages with
      | [] => .error .abort
      | i :: rest => .ok (s.put t s.cache rest ⟨.tryAdd p i, links⟩)
  | .tryAdd p i => do
      let (added, c) ← s.cache.tryAdd p i
      if added then .ok (s.put t c s.freeEpcPages ⟨.idle, (p, i) :: links⟩)
      else .ok (s.put t c s.freeEpcPages ⟨.found p i, links⟩)
  | .found p i =>
      match s.cache.get p with
      | none => .error .abort
      | some it => .ok (s.put t s.cache s.freeEpcPages ⟨.giveBack p i it.epc, links⟩)
  | .giveBack p i e => .ok (s.put t s.cache (i :: s.freeEpcPages) ⟨.idle, (p, e) :: links⟩)

/-! ## 数え方 -/

/-- スレッドが持つページ `p` への参照の数。 -/
def Pc.pin (p : Int) : Pc → Nat
  | .idle | .inc _ => 0
  | .release q | .dec q _ | .get q | .check q | .dequeue q | .select q _ | .enqueue q _ | .push q _ | .pop q
  | .tryAdd q _ | .found q _ | .giveBack q _ _ => if q = p then 1 else 0

def Thread.pin (p : Int) (th : Thread) : Nat := (th.links.map Prod.fst).count p + th.pc.pin p

/-- スレッドが手に持つ枠。 -/
def Thread.slot? (th : Thread) : Option Nat :=
  match th.pc with
  | .push _ i | .tryAdd _ i | .found _ i | .giveBack _ i _ => some i
  | _ => none

/-- スレッドが枠 `i` を手に持つとき 1 である。 -/
def Thread.hold (i : Nat) (th : Thread) : Nat := if th.slot? = some i then 1 else 0

/-- ページ `p` への参照の総数。 -/
def World.refs (s : World n) (p : Int) : Nat := tally (Thread.pin p) s.threads

/-- 枠 `i` のある場所の数。空きの並び、表の項目、途中のスレッドの手の中を数える。 -/
def World.places (s : World n) (i : Nat) : Nat :=
  s.freeEpcPages.count i + (s.cache.table.items.map Item.epc).count i + tally (Thread.hold i) s.threads

/-! ## 実行 -/

/-- 始める処理の前提。`Aptr` はプールの中を指す。 -/
def Act.Valid (cfg : Config) (th : Thread) : Act → Prop
  | .fault k p => (∀ j, k = some j → j < th.links.length) ∧ 0 ≤ p ∧ p < cfg.poolPages
  | .reset k => k < th.links.length

/-- 一つの遷移。休んでいるスレッドは処理を始め、途中のスレッドは一つ進む。 -/
inductive Step (cfg : Config) (s : World n) (t : Fin n) : Except Stop (World n) → Prop where
  | start (act : Act) : (s.threads t).pc = .idle → act.Valid cfg (s.threads t) → Step cfg s t (s.start t act)
  | advance : Step cfg s t (s.advance cfg t)

/-- 一つのページへの参照が 255 以下である実行で到達できる状態。 -/
inductive Reach (cfg : Config) : World n → Prop where
  | init : Reach cfg (World.init cfg)
  | step {s s' : World n} {t : Fin n} : Reach cfg s → Step cfg s t (.ok s') → (∀ p, s'.refs p ≤ 255) → Reach cfg s'

end Eleos.Threads
