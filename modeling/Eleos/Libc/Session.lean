import Eleos.Libc.Shims

/-!
# 塊を扱う関数を含む実行

`Aptr` の操作と塊を扱う関数の呼び出しの列を扱う。SUVM の一つのバイトの値は、枠にあるページでは枠の中身であり、
枠にないページではプールの中身を復号したものである。
-/

namespace Eleos.Libc

open Pager

/-! ## SUVM の中身 -/

/-- SUVM を通して見える番地 `y` の値。 -/
def byteAt (G : Gcm) (s : Sys) (y : Int) : Option UInt8 :=
  let p := y / pageSize
  let o := (y % pageSize).toNat
  match s.state.l1.get p with
  | some it => some (s.state.epc (clearTag (s.state.epcArr it.epc) + o))
  | none =>
      match s.state.llc.get p with
      | none => none
      | some it =>
          (G.decrypt s.state.evictionKey it.nonce (readPage s.state.pool (ramPage p)) it.mac).bind fun c =>
            if h : o < pageSize then some (c ⟨o, h⟩) else none

/-- 番地 `y` に書き込みがあった。 -/
def Written (s : Sys) (y : Int) : Prop := ∃ v, lastWrite s.state.trace y = some v

/-- 読み書きの番地が `R` に収まる項目。 -/
def Touches (R : Int → Prop) : Event → Prop
  | .read y _ | .write y _ => R y
  | .evict _ _ | .load _ _ _ _ => True

/-- 番地 `[y, y + n)`。 -/
def Range (y : Int) (n : Nat) (x : Int) : Prop := y ≤ x ∧ x < y + n

/-- 二つの範囲。 -/
def Ranges (y z : Int) (n : Nat) (x : Int) : Prop := Range y n x ∨ Range z n x

/-- 二つの `n` バイトの並びの比較の結果。 -/
structure Compares (n : Nat) (u w : Nat → UInt8) (r : Int) : Prop where
  zero : r = 0 ↔ ∀ k < n, u k = w k
  first : ∀ k < n, (∀ j < k, u j = w j) → u k ≠ w k → r = (u k).toNat - (w k).toNat

/-- 呼び出しの前後の関係。参照の数は元に戻り、`R` の外を読み書きせず、`W` の外の書き込み済みの値を変えない。 -/
structure Effect (G : Gcm) (s s' : Sys) (R W : Int → Prop) : Prop where
  counts : s'.state.l1.refCount = s.state.l1.refCount
  accesses : ∃ l, s'.state.trace = l ++ s.state.trace ∧ ∀ ev ∈ l, Touches R ev
  kept : ∀ y, Written s y → ¬ W y → byteAt G s' y = byteAt G s y

/-! ## 呼び出しの前提 -/

section

variable (cfg : Config) (G : Gcm)

/-- `ps` のページにあとからつなぐ余地がある。 -/
structure RoomFor (s : Sys) (ps : List Int) : Prop where
  links : ∀ p, s.linkedCount p + ps.count p ≤ 255
  pages : (ps ++ s.linked).dedup.length < cfg.cacheCapacity - maxNumOfThreadsOptimization

/-- 番地 `[y, y + n)` はプールの中にある。 -/
structure InPool (y : Int) (n : Nat) : Prop where
  lo : 0 ≤ y
  hi : y + n ≤ cfg.poolPages * pageSize

/-- `memmove_reg_aptr` の `src` の条件。一つのブロックは `0x40000000` バイト以下である。 -/
structure Readable (s : Sys) (d : Nat) (a : Aptr) (n : Nat) : Prop where
  get : s.get d = .ok a
  base : 0 ≤ a.basePageIndex
  biased : a.prmPtr = none → isValid a.offset = false
  range : InPool cfg a.addr n
  small : n ≤ 0x40000000
  room : ∀ k < n, RoomFor cfg (s.set d none) [(a.addr + k) / pageSize]

/-- `memmove_aptr_reg` の `dst` の条件。`offset` は `int` である。 -/
structure Writable (s : Sys) (d : Nat) (a : Aptr) (n : Nat) : Prop where
  get : s.get d = .ok a
  base : 0 ≤ a.basePageIndex
  nonneg : 0 ≤ a.offset
  int : a.offset < 2147483648
  range : InPool cfg a.addr n
  small : n ≤ 0x40000000
  room : ∀ k < n, RoomFor cfg s [(a.addr + k) / pageSize]

/-- 一つの範囲を先頭から順に読み書きする関数の引数の条件。 -/
structure OneRange (s : Sys) (y : Int) (n : Nat) : Prop where
  start : y < cfg.poolPages * pageSize
  range : InPool cfg y n
  room : ∀ k < n, RoomFor cfg s [(y + k) / pageSize]

/-- 二つの範囲を並べて読み書きする関数の引数の条件。二つの `Aptr` の位置の差は 1 以下である。 -/
structure TwoRanges (s : Sys) (y z : Int) (n : Nat) : Prop where
  start : y < cfg.poolPages * pageSize ∧ z < cfg.poolPages * pageSize
  left : InPool cfg y n
  right : InPool cfg z n
  room : ∀ j < n, ∀ k < n, j ≤ k + 1 → k ≤ j + 1 → RoomFor cfg s [(y + j) / pageSize, (z + k) / pageSize]

/-- `Aptr` の操作と、塊を扱う関数の呼び出し。 -/
inductive Call where
  | op (o : Op)
  | memmoveRegAptr (dst : List UInt8) (src : Nat)
  | memmoveAptrReg (dst : Nat) (src : List UInt8)
  | memsetAptr (dst c : Int) (n : Nat)
  | memcmpAptrAptr (s1 s2 : Int) (n : Nat)
  | memcmpRegAptr (s1 : List UInt8) (s2 : Int)
  | memcpyAptr (order : Bool) (dst src : Int) (n : Nat)

/-- 呼び出しのあとの状態。 -/
def call (s : Sys) : Call → Except Stop Sys
  | .op o => s.step cfg G id o
  | .memmoveRegAptr dst src => do
      let (s, _) ← memmoveRegAptr cfg G s dst src
      .ok s
  | .memmoveAptrReg dst src => memmoveAptrReg cfg G s dst src
  | .memsetAptr dst c n => memsetAptr cfg G s dst c n
  | .memcmpAptrAptr s1 s2 n => do
      let (s, _) ← memcmpAptrAptr cfg G s s1 s2 n
      .ok s
  | .memcmpRegAptr s1 s2 => do
      let (s, _) ← memcmpRegAptr cfg G s s1 s2
      .ok s
  | .memcpyAptr order dst src n => memcpyAptr cfg G order s dst src n

/-- 呼び出しの前提。 -/
def CallGuard (s : Sys) : Call → Prop
  | .op o => Guard cfg s o ∧ ∀ s', s.step cfg G id o = .ok s' → s'.Within cfg
  | .memmoveRegAptr dst src => ∃ a, Readable cfg s src a dst.length
  | .memmoveAptrReg dst src => ∃ a, Writable cfg s dst a src.length
  | .memsetAptr dst _ n => OneRange cfg s dst n
  | .memcmpAptrAptr s1 s2 n => TwoRanges cfg s s1 s2 n
  | .memcmpRegAptr s1 s2 => OneRange cfg s s2 s1.length
  | .memcpyAptr _ dst src n => TwoRanges cfg s dst src n

/-- 前提を満たす呼び出しだけで `s` から進んだ状態。 -/
inductive Calls (s : Sys) : Sys → Prop where
  | refl : Calls s s
  | step {s' s'' : Sys} {c : Call} : Calls s s' → CallGuard cfg G s' c → call cfg G s' c = .ok s'' → Calls s s''

/-- `initialize_aptr` のあとの状態から、前提を満たす呼び出しだけで到達できる状態。 -/
def Session (s : Sys) : Prop :=
  ∃ epc pool key rand, Calls cfg G (Sys.init cfg epc pool key rand) s

end

end Eleos.Libc
