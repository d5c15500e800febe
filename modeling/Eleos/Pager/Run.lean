import Eleos.Pager.Aptr

/-!
# `Aptr` の操作の列

`Aptr` のオブジェクトは構築した順の番号で呼ぶ。破棄したオブジェクトの位置は `none` になる。
一つのスレッドの実行を、`initialize_aptr` のあとの状態から始まる操作の列とする。
-/

namespace Eleos.Pager

/-- 操作。`move` は `+=`、`-=`、`++`、`--` を含む。 -/
inductive Op where
  | construct (x : Int) (size : Nat)
  | null (junk : Aptr)
  | copy (src : Nat)
  | assign (dst src : Nat)
  | move (d : Nat) (sizeofT : Nat) (k : Int)
  | hint (d : Nat) (b : Bool)
  | read (d : Nat)
  | write (d : Nat) (v : UInt8)
  | reset (d : Nat)
  | destroy (d : Nat)

/-- ページの管理の状態と、`Aptr` のオブジェクト。 -/
structure Sys where
  state : State
  aptrs : List (Option Aptr)

namespace Sys

def init (cfg : Config) (epc pool : Nat → UInt8) (key : Key) (rand : Nat → Nonce) : Sys :=
  { state := State.init cfg epc pool key rand, aptrs := [] }

def get (s : Sys) (d : Nat) : Except Stop Aptr :=
  match s.aptrs[d]? with
  | some (some a) => .ok a
  | _ => .error .noObject

def set (s : Sys) (d : Nat) (a : Option Aptr) : Sys := { s with aptrs := s.aptrs.set d a }

/-- 一つの操作。 -/
def step (cfg : Config) (G : Gcm) (host : (Nat → UInt8) → Nat → UInt8) (s : Sys) : Op → Except Stop Sys
  | .construct x size => do
      let a ← Aptr.construct x size
      .ok { s with aptrs := s.aptrs ++ [some a] }
  | .null junk => .ok { s with aptrs := s.aptrs ++ [some (Aptr.null junk)] }
  | .copy src => do
      let a ← s.get src
      .ok { s with aptrs := s.aptrs ++ [some a.doCopy] }
  | .assign dst src => do
      let a ← s.get dst
      let (st, a) ← a.reset s.state
      -- 自分自身への代入では、`reset` のあとの値を写す。
      let s := { s with state := st }.set dst (some a)
      let b ← s.get src
      .ok (s.set dst (some b.doCopy))
  | .move d sizeofT k => do
      let a ← s.get d
      .ok (s.set d (some (a.move sizeofT k)))
  | .hint d b => do
      let a ← s.get d
      .ok (s.set d (some { a with hintWrite := b }))
  | .read d => do
      let a ← s.get d
      let (st, a', x) ← deref cfg G host s.state a
      .ok ({ s with state := { st with trace := .read a.addr (st.epc x) :: st.trace } }.set d (some a'))
  | .write d v => do
      let a ← s.get d
      let (st, a', x) ← deref cfg G host s.state a
      .ok ({ s with
        state := { st with epc := Function.update st.epc x v, trace := .write a.addr v :: st.trace } }.set d
          (some a'))
  | .reset d => do
      let a ← s.get d
      let (st, a) ← a.reset s.state
      .ok ({ s with state := st }.set d (some a))
  | .destroy d => do
      let a ← s.get d
      let (st, _) ← a.reset s.state
      .ok ({ s with state := st }.set d none)

/-- 正直なホストのもとでの操作の列。 -/
def run (cfg : Config) (G : Gcm) (s : Sys) : List Op → Except Stop Sys
  | [] => .ok s
  | op :: ops => do
      let s' ← s.step cfg G id op
      s'.run cfg G ops

/-! ## 使い方の条件 -/

/-- つながっている `Aptr` のページの並び。 -/
def linked (s : Sys) : List Int := s.aptrs.filterMap fun a => a.bind Aptr.linkedPage?

/-- ページ `p` につながっている `Aptr` の個数。 -/
def linkedCount (s : Sys) (p : Int) : Nat := s.linked.count p

end Sys

/-- 参照をたどってよい `Aptr`。プールの中を指し、つながっていなければ `offset` がページの外にある。 -/
structure Aptr.Derefable (cfg : Config) (a : Aptr) : Prop where
  base : 0 ≤ a.basePageIndex
  lo : 0 ≤ a.addr
  hi : a.addr < cfg.poolPages * pageSize
  biased : a.prmPtr = none → isValid a.offset = false

/-- 操作の前提。 -/
def Guard (cfg : Config) (s : Sys) : Op → Prop
  | .construct x _ => 0 ≤ x ∧ x < cfg.poolPages * pageSize
  | .null _ => True
  | .copy src => ∃ a, s.get src = .ok a
  | .assign dst src => (∃ a, s.get dst = .ok a) ∧ ∃ a, s.get src = .ok a
  | .move d _ _ | .hint d _ | .reset d | .destroy d => ∃ a, s.get d = .ok a
  | .read d => ∃ a, s.get d = .ok a ∧ a.Derefable cfg
  | .write d _ => ∃ a, s.get d = .ok a ∧ a.Derefable cfg ∧ a.hintWrite = true

instance (cfg : Config) (a : Aptr) : Decidable (a.Derefable cfg) :=
  decidable_of_iff (0 ≤ a.basePageIndex ∧ 0 ≤ a.addr ∧ a.addr < cfg.poolPages * pageSize ∧
    (a.prmPtr = none → isValid a.offset = false))
    ⟨fun ⟨h₁, h₂, h₃, h₄⟩ => ⟨h₁, h₂, h₃, h₄⟩, fun ⟨h₁, h₂, h₃, h₄⟩ => ⟨h₁, h₂, h₃, h₄⟩⟩

instance (s : Sys) (d : Nat) (P : Aptr → Prop) [DecidablePred P] : Decidable (∃ a, s.get d = .ok a ∧ P a) :=
  match s.get d with
  | .ok a => decidable_of_iff (P a) ⟨fun hp => ⟨a, rfl, hp⟩, fun ⟨_, he, hp⟩ => Except.ok.inj he ▸ hp⟩
  | .error _ => isFalse fun ⟨_, he, _⟩ => nomatch he

instance (s : Sys) (d : Nat) : Decidable (∃ a, s.get d = .ok a) :=
  decidable_of_iff (∃ a, s.get d = .ok a ∧ True) (by simp)

instance (cfg : Config) (s : Sys) (op : Op) : Decidable (Guard cfg s op) :=
  match op with
  | .construct x _ => inferInstanceAs (Decidable (0 ≤ x ∧ x < cfg.poolPages * pageSize))
  | .null _ => inferInstanceAs (Decidable True)
  | .copy src => inferInstanceAs (Decidable (∃ a, s.get src = .ok a))
  | .assign dst src => inferInstanceAs (Decidable ((∃ a, s.get dst = .ok a) ∧ ∃ a, s.get src = .ok a))
  | .move d _ _ | .hint d _ | .reset d | .destroy d => inferInstanceAs (Decidable (∃ a, s.get d = .ok a))
  | .read d => inferInstanceAs (Decidable (∃ a, s.get d = .ok a ∧ a.Derefable cfg))
  | .write d _ => inferInstanceAs (Decidable (∃ a, s.get d = .ok a ∧ a.Derefable cfg ∧ a.hintWrite = true))

/-- 前提を満たす操作だけで到達できる状態。 -/
inductive Reach (cfg : Config) (G : Gcm) : Sys → Prop where
  | init (epc pool : Nat → UInt8) (key : Key) (rand : Nat → Nonce) : Reach cfg G (Sys.init cfg epc pool key rand)
  | step {s s' : Sys} {op : Op} : Reach cfg G s → Guard cfg s op → s.step cfg G id op = .ok s' → Reach cfg G s'

/-! ## 最後の書き込み -/

/-- 履歴の中で番地 `x` に最後に書き込んだ値。 -/
def lastWrite : List Event → Int → Option UInt8
  | [], _ => none
  | .write a v :: l, x => if x = a then some v else lastWrite l x
  | _ :: l, x => lastWrite l x

/-- それまでに書き込みのある番地の読みは、最後に書き込んだ値を返す。 -/
def Coherent (l : List Event) : Prop :=
  ∀ l₁ a v l₂, l = l₁ ++ .read a v :: l₂ → ∀ w, lastWrite l₂ a = some w → v = w

/-- 一つのページにつながる `Aptr` は 255 個以下であり、つながっているページは `CACHE_CAPACITY - 10` 枚より少ない。 -/
structure Sys.Within (cfg : Config) (s : Sys) : Prop where
  links : ∀ p, s.linkedCount p ≤ 255
  pages : s.linked.dedup.length < cfg.cacheCapacity - maxNumOfThreadsOptimization

/-- 使い方の条件を、実行のどの時点でも満たす操作の列。 -/
def Admissible (cfg : Config) (G : Gcm) (s : Sys) : List Op → Prop
  | [] => s.Within cfg
  | op :: ops => s.Within cfg ∧ Guard cfg s op ∧ ∀ s', s.step cfg G id op = .ok s' → Admissible cfg G s' ops

instance (cfg : Config) (s : Sys) : Decidable (s.Within cfg) :=
  decidable_of_iff ((∀ p ∈ s.linked, s.linkedCount p ≤ 255) ∧
    s.linked.dedup.length < cfg.cacheCapacity - maxNumOfThreadsOptimization) <| by
      constructor
      · rintro ⟨h₁, h₂⟩
        refine ⟨fun p => ?_, h₂⟩
        by_cases hp : p ∈ s.linked
        · exact h₁ p hp
        · rw [Sys.linkedCount, List.count_eq_zero.mpr hp]
          exact Nat.zero_le 255
      · rintro ⟨h₁, h₂⟩
        exact ⟨fun p _ => h₁ p, h₂⟩

instance decidableAdmissible (cfg : Config) (G : Gcm) :
    (s : Sys) → (ops : List Op) → Decidable (Admissible cfg G s ops)
  | s, [] => inferInstanceAs (Decidable (s.Within cfg))
  | s, op :: ops =>
      have (s' : Sys) : Decidable (Admissible cfg G s' ops) := decidableAdmissible cfg G s' ops
      inferInstanceAs (Decidable (s.Within cfg ∧ Guard cfg s op ∧
        ∀ s', s.step cfg G id op = .ok s' → Admissible cfg G s' ops))

end Eleos.Pager
