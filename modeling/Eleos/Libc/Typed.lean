import Eleos.Libc.Session

/-!
# 型の付いた読み書き（`Aptr.h` の `operator*`）

`*ptr` は `deref` の返す番地を型 `T` の参照として使い、そこから `sizeof(T)` バイトを続けて読み書きする。
-/

namespace Eleos.Libc

open Pager

section

variable (cfg : Config) (G : Gcm)

/-- 新しい `Aptr<char>` を通した、番地 `x` の一バイトの読み出し。 -/
def readChar (s : Sys) (x : Int) : Except Stop (Sys × UInt8) := do
  let d := s.aptrs.length
  let s ← s.step cfg G id (.construct x 1)
  let (s, v) ← getByte cfg G s d
  let s ← s.step cfg G id (.destroy d)
  .ok (s, v)

/-- 番地 `y` の `n` バイトの要素に移した、`hint_write` の立っている `Aptr`。要素はプールの中にある。 -/
structure Element (s : Sys) (d : Nat) (a : Aptr) (y : Int) (n : Nat) : Prop where
  session : Session cfg G s
  get : s.get d = .ok a
  base : 0 ≤ a.basePageIndex
  addr : a.addr = y
  hint : a.hintWrite = true
  range : InPool cfg y n
  room : RoomFor cfg (s.set d none) [y / pageSize]

/-- `deref` のあとの状態 `s₁` から `vs` を書いた状態 `s'` では、要素を書き換えない限り、`Aptr<char>` を通して `vs` が
読み出される。また、ほかのページの枠の中身は変わらない。 -/
structure Lands (s₁ s' : Sys) (y : Int) (vs : List UInt8) : Prop where
  reads : ∀ l s'', Calls cfg G s' s'' → s''.state.trace = l ++ s'.state.trace →
    (∀ z v, .write z v ∈ l → ¬ Range y vs.length z) → ∀ k < vs.length, RoomFor cfg s'' [(y + (k : Nat)) / pageSize] →
    ∃ s₂ v, readChar cfg G s'' (y + (k : Nat)) = .ok (s₂, v) ∧ vs[k]? = some v
  frame : ∀ q it, s₁.state.l1.get q = some it → q ≠ y / pageSize →
    readPage s'.state.epc (clearTag (s'.state.epcArr it.epc)) = readPage s₁.state.epc (clearTag (s₁.state.epcArr it.epc))

/-- `d` を通して書いた `n` バイトの値は、番地 `y` の要素に入る。 -/
def Designates (s : Sys) (d : Nat) (y : Int) (n : Nat) : Prop :=
  ∀ vs : List UInt8, vs.length = n → ∃ s₁ a x s', touch cfg G s d = .ok (s₁, a, x) ∧
    putBytes cfg G s d vs = .ok s' ∧ Lands cfg G s₁ s' y vs

end

end Eleos.Libc
