import Eleos.Direct.Aptr
import Eleos.Pager.Run

/-!
# 部分ページの構成での `Aptr` の操作の列

一つのスレッドの実行を、`initialize_aptr` のあとの状態から始まる操作の列とする。
-/

namespace Eleos.Direct

open Eleos.Pager (Key Nonce Config Event pageSize maxNumOfThreadsOptimization)

/-- 操作。`move` は `+=`、`-=`、`++`、`--` を含む。 -/
inductive Op where
  | construct (x : Int) (size : Nat)
  | null (junk : Aptr)
  | copy (src : Nat)
  | assign (dst src : Nat)
  | move (d : Nat) (sizeofT : Nat) (k : Int)
  | hint (d : Nat) (b : Bool)
  | read (d : Nat)
  | write (d : Nat) (v : UInt8)
  | reset (d : Nat)
  | destroy (d : Nat)

/-- `Aptr` のオブジェクト。`wrote` は、いまつながっている部分ページに書き込んだという履歴であり、操作の結果には関わらない。 -/
structure Obj where
  aptr : Aptr
  wrote : Bool

/-- ページの管理の状態と、`Aptr` のオブジェクト。 -/
structure Sys where
  state : State
  objs : List (Option Obj)

namespace Sys

def init (cfg : Config) (epc pool : Nat → UInt8) (key : Key) (rand : Nat → Nonce) : Sys :=
  { state := State.init cfg epc pool key rand, objs := [] }

def get (s : Sys) (d : Nat) : Except Stop Obj :=
  match s.objs[d]? with
  | some (some o) => .ok o
  | _ => .error .noObject

def set (s : Sys) (d : Nat) (o : Option Obj) : Sys := { s with objs := s.objs.set d o }

def push (s : Sys) (a : Aptr) : Sys := { s with objs := s.objs ++ [some ⟨a, false⟩] }

/-- 一つの操作。 -/
def step (cfg : Config) (G : Gcm) (s : Sys) : Op → Except Stop Sys
  | .construct x size => do
      let a ← Aptr.construct x size
      .ok (s.push a)
  | .null junk => .ok (s.push (Aptr.null junk))
  | .copy src => do
      let o ← s.get src
      .ok (s.push o.aptr.doCopy)
  | .assign dst src => do
      let o ← s.get dst
      let (st, a) ← o.aptr.reset cfg G s.state
      -- 自分自身への代入では、`reset` のあとの値を写す。
      let s := { s with state := st }.set dst (some ⟨a, false⟩)
      let o' ← s.get src
      .ok (s.set dst (some ⟨o'.aptr.doCopy, false⟩))
  | .move d sizeofT k => do
      let o ← s.get d
      .ok (s.set d (some ⟨o.aptr.move sizeofT k, o.wrote⟩))
  | .hint d b => do
      let o ← s.get d
      .ok (s.set d (some ⟨{ o.aptr with hintWrite := b }, o.wrote⟩))
  | .read d => do
      let o ← s.get d
      let (st, a, x) ← deref cfg G s.state o.aptr
      .ok ({ s with state := { st with trace := .read o.aptr.addr (st.epc x) :: st.trace } }.set d
        (some ⟨a, o.wrote && inSubPage o.aptr⟩))
  | .write d v => do
      let o ← s.get d
      let (st, a, x) ← deref cfg G s.state o.aptr
      .ok ({ s with
        state := { st with
          epc := Function.update st.epc x v
          trace := .write o.aptr.addr v :: st.trace } }.set d (some ⟨a, true⟩))
  | .reset d => do
      let o ← s.get d
      let (st, a) ← o.aptr.reset cfg G s.state
      .ok ({ s with state := st }.set d (some ⟨a, false⟩))
  | .destroy d => do
      let o ← s.get d
      let (st, _) ← o.aptr.reset cfg G s.state
      .ok ({ s with state := st }.set d none)

def run (cfg : Config) (G : Gcm) (s : Sys) : List Op → Except Stop Sys
  | [] => .ok s
  | op :: ops => do
      let s' ← s.step cfg G op
      s'.run cfg G ops

/-! ## 使い方の条件 -/

/-- つながっている `Aptr` のページの並び。 -/
def linked (s : Sys) : List Int := s.objs.filterMap fun o => o.bind fun o => o.aptr.linkedPage?

/-- ページ `p` につながっている `Aptr` の個数。 -/
def linkedCount (s : Sys) (p : Int) : Nat := s.linked.count p

end Sys

/-- 操作の前提。書き込んだ `Aptr` の `hint_write` は、部分ページを離れるまで立てたままにする。 -/
def Guard (cfg : Config) (s : Sys) : Op → Prop
  | .construct x _ => 0 ≤ x ∧ x < cfg.poolPages * pageSize
  | .null _ => True
  | .copy src => ∃ o, s.get src = .ok o
  | .assign dst src => (∃ o, s.get dst = .ok o) ∧ ∃ o, s.get src = .ok o
  | .move d _ _ | .reset d | .destroy d => ∃ o, s.get d = .ok o
  | .hint d b => ∃ o, s.get d = .ok o ∧ (o.wrote = true → b = true)
  | .read d => ∃ o, s.get d = .ok o ∧ o.aptr.Derefable cfg
  | .write d _ => ∃ o, s.get d = .ok o ∧ o.aptr.Derefable cfg ∧ o.aptr.hintWrite = true

/-- 一つのページにつながる `Aptr` は 255 個以下であり、つながっているページは `CACHE_CAPACITY - 10` 枚より少ない。 -/
structure Sys.Within (cfg : Config) (s : Sys) : Prop where
  links : ∀ p, s.linkedCount p ≤ 255
  pages : s.linked.dedup.length < cfg.cacheCapacity - maxNumOfThreadsOptimization

/-- 使い方の条件を、実行のどの時点でも満たす操作の列。 -/
def Admissible (cfg : Config) (G : Gcm) (s : Sys) : List Op → Prop
  | [] => s.Within cfg
  | op :: ops => s.Within cfg ∧ Guard cfg s op ∧ ∀ s', s.step cfg G op = .ok s' → Admissible cfg G s' ops

instance (s : Sys) (d : Nat) (P : Obj → Prop) [DecidablePred P] : Decidable (∃ o, s.get d = .ok o ∧ P o) :=
  match s.get d with
  | .ok o => decidable_of_iff (P o) ⟨fun hp => ⟨o, rfl, hp⟩, fun ⟨_, he, hp⟩ => Except.ok.inj he ▸ hp⟩
  | .error _ => isFalse fun ⟨_, he, _⟩ => nomatch he

instance (s : Sys) (d : Nat) : Decidable (∃ o, s.get d = .ok o) :=
  decidable_of_iff (∃ o, s.get d = .ok o ∧ True) (by simp)

instance (cfg : Config) (s : Sys) (op : Op) : Decidable (Guard cfg s op) :=
  match op with
  | .construct x _ => inferInstanceAs (Decidable (0 ≤ x ∧ x < cfg.poolPages * pageSize))
  | .null _ => inferInstanceAs (Decidable True)
  | .copy src => inferInstanceAs (Decidable (∃ o, s.get src = .ok o))
  | .assign dst src =>
      inferInstanceAs (Decidable ((∃ o, s.get dst = .ok o) ∧ ∃ o, s.get src = .ok o))
  | .move d _ _ | .reset d | .destroy d => inferInstanceAs (Decidable (∃ o, s.get d = .ok o))
  | .hint d b => inferInstanceAs (Decidable (∃ o, s.get d = .ok o ∧ (o.wrote = true → b = true)))
  | .read d => inferInstanceAs (Decidable (∃ o, s.get d = .ok o ∧ o.aptr.Derefable cfg))
  | .write d _ =>
      inferInstanceAs (Decidable (∃ o, s.get d = .ok o ∧ o.aptr.Derefable cfg ∧ o.aptr.hintWrite = true))

instance (cfg : Config) (s : Sys) : Decidable (s.Within cfg) :=
  decidable_of_iff ((∀ p ∈ s.linked, s.linkedCount p ≤ 255) ∧
    s.linked.dedup.length < cfg.cacheCapacity - maxNumOfThreadsOptimization) <| by
      constructor
      · rintro ⟨h₁, h₂⟩
        refine ⟨fun p => ?_, h₂⟩
        by_cases hp : p ∈ s.linked
        · exact h₁ p hp
        · rw [Sys.linkedCount, List.count_eq_zero.mpr hp]
          exact Nat.zero_le 255
      · rintro ⟨h₁, h₂⟩
        exact ⟨fun p _ => h₁ p, h₂⟩

instance decidableAdmissible (cfg : Config) (G : Gcm) :
    (s : Sys) → (ops : List Op) → Decidable (Admissible cfg G s ops)
  | s, [] => inferInstanceAs (Decidable (s.Within cfg))
  | s, op :: ops =>
      have (s' : Sys) : Decidable (Admissible cfg G s' ops) := decidableAdmissible cfg G s' ops
      inferInstanceAs (Decidable (s.Within cfg ∧ Guard cfg s op ∧
        ∀ s', s.step cfg G op = .ok s' → Admissible cfg G s' ops))

end Eleos.Direct
