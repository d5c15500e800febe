import Eleos.Pager.Run

/-!
# メモリの塊を扱う関数（`Aptr.cpp` の後半）

`memmove_aptr_reg` などは、`Aptr` を先頭から順に動かしながら読み書きする。局所変数の `Aptr` は、呼び出しの間だけ
`Sys` の末尾に置き、戻るときに破棄する。`Aptr<char> a = Aptr<char>(p, n, 0)` の複写は省かれるものとする。
-/

namespace Eleos.Libc

open Pager

/-! ## 得た番地の読み書き -/

/-- `MOVE_APTR`。 -/
def moveAptr (a : Aptr) (val : Int) : Aptr := { a with offset := int32 (a.offset + val) }

/-- 枠の番地 `x` から順に `vs` を書く。`y` は対応するプールの番地である。 -/
def storeBytes (t : State) (x : Nat) (y : Int) : List UInt8 → State
  | [] => t
  | v :: vs =>
      storeBytes { t with epc := Function.update t.epc x v, trace := .write y v :: t.trace } (x + 1) (y + 1) vs

/-- 枠の番地 `x` から順に `n` バイトを読む。 -/
def loadBytes (t : State) (x : Nat) (y : Int) : Nat → State × List UInt8
  | 0 => (t, [])
  | n + 1 =>
      let (t', vs) := loadBytes { t with trace := .read y (t.epc x) :: t.trace } (x + 1) (y + 1) n
      (t', t.epc x :: vs)

section

variable (cfg : Config) (G : Gcm)

/-- オブジェクト `d` の `deref`。得た枠の番地を返す。 -/
def touch (s : Sys) (d : Nat) : Except Stop (Sys × Aptr × Nat) := do
  let a ← s.get d
  let (t, a, x) ← deref cfg G id s.state a
  .ok ({ s with state := t }.set d (some a), a, x)

/-- `*deref(d)` への書き込み。 -/
def putBytes (s : Sys) (d : Nat) (vs : List UInt8) : Except Stop Sys := do
  let (s, a, x) ← touch cfg G s d
  .ok { s with state := storeBytes s.state x a.addr vs }

/-- `*deref(d)` の読み出し。 -/
def getByte (s : Sys) (d : Nat) : Except Stop (Sys × UInt8) := do
  let (s, a, x) ← touch cfg G s d
  .ok ({ s with state := (loadBytes s.state x a.addr 1).1 }, s.state.epc x)

/-- オブジェクト `d` の `MOVE_APTR`。 -/
def advance (s : Sys) (d : Nat) (val : Int) : Except Stop Sys := do
  let a ← s.get d
  .ok (s.set d (some (moveAptr a val)))

/-! ## `memmove` -/

/-- `memmove_reg_aptr` の繰り返し。`ctr` は残りのバイト数である。 -/
def memmoveRegAptrLoop (src : Nat) : Nat → Sys → Nat → Except Stop (Sys × List UInt8)
  | _, s, 0 => .ok (s, [])
  | 0, _, _ + 1 => .error .spin
  | fuel + 1, s, ctr + 1 => do
      let (s, a, x) ← touch cfg G s src
      let left := pageSize - a.offset
      if left < ctr + 1 then do
        let (t, vs) := loadBytes s.state x a.addr left.toNat
        let s := { s with state := t }.set src (some (moveAptr a left))
        let (s, vs') ← memmoveRegAptrLoop src fuel s (ctr + 1 - left.toNat)
        .ok (s, vs ++ vs')
      else
        let (t, vs) := loadBytes s.state x a.addr (ctr + 1)
        .ok ({ s with state := t }, vs)

/-- `memmove_reg_aptr`。`src` の `Aptr` は参照で受け取る。`length` を `int` に変えた個数だけ、`dst` の末尾に写す。 -/
def memmoveRegAptr (s : Sys) (dst : List UInt8) (src : Nat) : Except Stop (Sys × List UInt8) := do
  let ctr := (int32 dst.length).toNat
  let (s, vs) ← memmoveRegAptrLoop cfg G src ctr s ctr
  .ok (s, dst.take (dst.length - ctr) ++ vs)

/-- `memmove_aptr_reg` の繰り返し。 -/
def memmoveAptrRegLoop (dst : Nat) : Nat → Sys → List UInt8 → Except Stop Sys
  | _, s, [] => .ok s
  | 0, _, _ :: _ => .error .spin
  | fuel + 1, s, v :: vs => do
      let (s, a, x) ← touch cfg G s dst
      let left := pageSize - a.offset
      if left < (v :: vs).length then do
        let t := storeBytes s.state x a.addr ((v :: vs).take left.toNat)
        let s := { s with state := t }.set dst (some (moveAptr a left))
        memmoveAptrRegLoop dst fuel s ((v :: vs).drop left.toNat)
      else .ok { s with state := storeBytes s.state x a.addr (v :: vs) }

/-- `memmove_aptr_reg`。`dst0` の `Aptr` は複写して使う。 -/
def memmoveAptrReg (s : Sys) (dst0 : Nat) (src : List UInt8) : Except Stop Sys := do
  let dst := s.aptrs.length
  let s ← s.step cfg G id (.copy dst0)
  let s ← s.step cfg G id (.hint dst true)
  let ctr := (int32 src.length).toNat
  let s ← memmoveAptrRegLoop cfg G dst ctr s (src.drop (src.length - ctr))
  s.step cfg G id (.destroy dst)

/-- `memcpy_reg_aptr`。 -/
def memcpyRegAptr (s : Sys) (dst : List UInt8) (src : Nat) : Except Stop (Sys × List UInt8) :=
  memmoveRegAptr cfg G s dst src

/-- `memcpy_aptr_reg`。 -/
def memcpyAptrReg (s : Sys) (dst : Nat) (src : List UInt8) : Except Stop Sys := memmoveAptrReg cfg G s dst src

/-! ## `memset` -/

/-- `memset_aptr` の繰り返し。 -/
def memsetLoop (d : Nat) (c : UInt8) : Nat → Sys → Except Stop Sys
  | 0, s => .ok s
  | n + 1, s => do
      let s ← putBytes cfg G s d [c]
      let s ← advance s d 1
      memsetLoop d c n s

/-- `memset_aptr`。 -/
def memsetAptr (s : Sys) (dst c : Int) (n : Nat) : Except Stop Sys :=
  if n ≠ 0 then do
    let d := s.aptrs.length
    let s ← s.step cfg G id (.construct dst n)
    let s ← s.step cfg G id (.hint d true)
    let s ← memsetLoop cfg G d (UInt8.ofInt c) n s
    s.step cfg G id (.destroy d)
  else .ok s

/-! ## `memcmp` -/

/-- `memcmp_aptr_aptr` の繰り返し。 -/
def memcmpAptrAptrLoop (d e : Nat) : Nat → Sys → Except Stop (Sys × Int)
  | 0, s => .ok (s, 0)
  | n + 1, s => do
      let (s, u1) ← getByte cfg G s d
      let (s, u2) ← getByte cfg G s e
      if u1 ≠ u2 then .ok (s, u1.toNat - u2.toNat)
      else do
        let s ← advance s d 1
        let s ← advance s e 1
        memcmpAptrAptrLoop d e n s

/-- `memcmp_aptr_aptr`。 -/
def memcmpAptrAptr (s : Sys) (s1 s2 : Int) (n : Nat) : Except Stop (Sys × Int) := do
  let d := s.aptrs.length
  let s ← s.step cfg G id (.construct s1 n)
  let s ← s.step cfg G id (.construct s2 n)
  let (s, r) ← memcmpAptrAptrLoop cfg G d (d + 1) n s
  let s ← s.step cfg G id (.destroy (d + 1))
  let s ← s.step cfg G id (.destroy d)
  .ok (s, r)

/-- `memcmp_reg_aptr` の繰り返し。 -/
def memcmpRegAptrLoop (e : Nat) : List UInt8 → Sys → Except Stop (Sys × Int)
  | [], s => .ok (s, 0)
  | u1 :: us, s => do
      let (s, u2) ← getByte cfg G s e
      if u1 ≠ u2 then .ok (s, u1.toNat - u2.toNat)
      else do
        let s ← advance s e 1
        memcmpRegAptrLoop e us s

/-- `memcmp_reg_aptr`。`n` は `s1` の長さである。 -/
def memcmpRegAptr (s : Sys) (s1 : List UInt8) (s2 : Int) : Except Stop (Sys × Int) := do
  let e := s.aptrs.length
  let s ← s.step cfg G id (.construct s2 s1.length)
  let (s, r) ← memcmpRegAptrLoop cfg G e s1 s
  let s ← s.step cfg G id (.destroy e)
  .ok (s, r)

/-! ## `strncmp` -/

/-- 符号付きの `char` の値を `int` に広げたもの。 -/
def signedChar (c : UInt8) : Int := if c.toNat < 128 then c.toNat else c.toNat - 256

/-- `strncmp_aptr` の繰り返し。`s2` の並びを越えて読むと、領域の外へのアクセスになる。 -/
def strncmpLoop (d : Nat) : Nat → Sys → List UInt8 → Except Stop (Sys × Int)
  | 0, s, _ => .ok (s, 0)
  | n + 1, s, s2 => do
      let (s, val) ← getByte cfg G s d
      match s2 with
      | [] => .error .outOfBounds
      | c :: s2 =>
          -- 等しいかどうかは符号付きの `*s2` で、大小は符号なしの `*s2` で調べる。
          if (val.toNat : Int) ≠ signedChar c then .ok (s, if val < c then -1 else 1)
          else if val = 0 then .ok (s, 0)
          else do
            let s ← advance s d 1
            strncmpLoop d n s s2

/-- `strncmp_aptr`。 -/
def strncmpAptr (s : Sys) (s1 : Int) (s2 : List UInt8) (n : Nat) : Except Stop (Sys × Int) := do
  let d := s.aptrs.length
  let s ← s.step cfg G id (.construct s1 n)
  let (s, r) ← strncmpLoop cfg G d n s s2
  let s ← s.step cfg G id (.destroy d)
  .ok (s, r)

/-! ## `memcpy` -/

/-- 代入 `*deref(d) = *deref(e)`。両辺の評価の順は決まっていないので、`order` で選ぶ。 -/
def assignByte (order : Bool) (s : Sys) (d e : Nat) : Except Stop Sys :=
  if order then do
    let (s, v) ← getByte cfg G s e
    putBytes cfg G s d [v]
  else do
    let (s, a, x) ← touch cfg G s d
    let (s, v) ← getByte cfg G s e
    .ok { s with state := storeBytes s.state x a.addr [v] }

/-- `memcpy_aptr` の繰り返し。 -/
def memcpyLoop (order : Bool) (d e : Nat) : Nat → Sys → Except Stop Sys
  | 0, s => .ok s
  | n + 1, s => do
      let s ← assignByte cfg G order s d e
      let s ← advance s d 1
      let s ← advance s e 1
      memcpyLoop order d e n s

/-- `memcpy_aptr`。 -/
def memcpyAptr (order : Bool) (s : Sys) (dst0 src0 : Int) (length : Nat) : Except Stop Sys :=
  if length = 0 ∨ dst0 = src0 then .ok s
  else do
    let d := s.aptrs.length
    let s ← s.step cfg G id (.construct dst0 length)
    let s ← s.step cfg G id (.construct src0 length)
    let s ← s.step cfg G id (.hint d true)
    let s ← memcpyLoop cfg G order d (d + 1) length s
    let s ← s.step cfg G id (.destroy (d + 1))
    s.step cfg G id (.destroy d)

end

end Eleos.Libc
