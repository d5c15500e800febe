import Mathlib.Data.List.Basic

/-!
# 生成される C のコード

代理関数の生成が使う範囲の C の構文と、その実行を定める。値は 64 ビットの語であり、番地の 0 は `NULL` である。
メモリの中身は扱わない。構造体の欄の値、大きさ、`strlen` などの結果、`memsys5Malloc` の結果は、実行時の環境 `World` が決める。
-/

namespace Eleos.Edger

/-! ## 構文 -/

inductive Expr where
  | var (x : String)
  | null
  | num (n : Int)
  -- 型または式の `sizeof`。
  | sizeof (ty : String)
  -- `p->f`。
  | field (p f : String)
  | cast (ty : String) (e : Expr)
  -- `SGX_CAST(ty, e)`。
  | sgxCast (ty : String) (e : Expr)
  -- `(ty *)&x[0]`。
  | first (ty x : String)
  | app (f : String) (a : Expr)
  | app2 (f : String) (a b : Expr)
  | add (a b : Expr)
  | mul (a b : Expr)
  | eq (a b : Expr)
  | ne (a b : Expr)
  | and (a b : Expr)
  | ite (c a b : Expr)
  | paren (e : Expr)

/-- 代入の左辺。 -/
inductive LVal where
  | var (x : String)
  | field (p f : String)
  | deref (x : String)

inductive Stmt where
  | skip
  | pragma (message : String)
  | decl (ty x : String) (e : Expr)
  | assign (l : LVal) (e : Expr)
  -- `x += e;`。
  | addAssign (x : String) (e : Expr)
  -- 変数を変えない関数の呼び出し `f(a, b, c);`。
  | call (f : String) (a b c : Expr)
  -- `x = memsys5Malloc(e);`。
  | malloc (x : String) (e : Expr)
  -- `memsys5Free(e);`。
  | free (e : Expr)
  -- `x = rpc_ocall(idx, e);`。
  | ocall (x : String) (idx : Nat) (e : Expr)
  | ret (e : Expr)
  | seq (a b : Stmt)
  | ite (c : Expr) (a b : Stmt)

/-- 文の並び。 -/
def Stmt.block (cs : List Stmt) : Stmt := cs.foldr .seq .skip

/-- 関数。 -/
structure Func where
  proto : String
  body : List Stmt

/-! ## 文字列 -/

def Expr.text : Expr → String
  | .var x => x
  | .null => "NULL"
  | .num n => toString n
  | .sizeof ty => "sizeof(" ++ ty ++ ")"
  | .field p f => p ++ "->" ++ f
  | .cast ty e => "(" ++ ty ++ ")" ++ e.text
  | .sgxCast ty e => "SGX_CAST(" ++ ty ++ ", " ++ e.text ++ ")"
  | .first ty x => "(" ++ ty ++ " *)&" ++ x ++ "[0]"
  | .app f a => f ++ "(" ++ a.text ++ ")"
  | .app2 f a b => f ++ "(" ++ a.text ++ ", " ++ b.text ++ ")"
  | .add a b => a.text ++ " + " ++ b.text
  | .mul a b => a.text ++ " * " ++ b.text
  | .eq a b => a.text ++ " == " ++ b.text
  | .ne a b => a.text ++ " != " ++ b.text
  | .and a b => a.text ++ " && " ++ b.text
  | .ite c a b => c.text ++ " ? " ++ a.text ++ " : " ++ b.text
  | .paren e => "(" ++ e.text ++ ")"

def LVal.text : LVal → String
  | .var x => x
  | .field p f => p ++ "->" ++ f
  | .deref x => "*" ++ x

/-- 文の文字列。字下げと改行の位置は生成器と異なる。 -/
def Stmt.text : Stmt → String
  | .skip => ""
  | .pragma message => "\n#pragma message(" ++ message ++ ")\n"
  | .decl ty x e => ty ++ " " ++ x ++ " = " ++ e.text ++ ";"
  | .assign l e => l.text ++ " = " ++ e.text ++ ";"
  | .addAssign x e => x ++ " += " ++ e.text ++ ";"
  | .call f a b c => f ++ "(" ++ a.text ++ ", " ++ b.text ++ ", " ++ c.text ++ ");"
  | .malloc x e => x ++ " = memsys5Malloc(" ++ e.text ++ ");"
  | .free e => "memsys5Free(" ++ e.text ++ ");"
  | .ocall x idx e => x ++ " = rpc_ocall(" ++ toString idx ++ ", " ++ e.text ++ ");"
  | .ret e => "return " ++ e.text ++ ";"
  | .seq a b => a.text ++ " " ++ b.text
  | .ite c a .skip => "if (" ++ c.text ++ ") \x7b " ++ a.text ++ " \x7d"
  | .ite c a b => "if (" ++ c.text ++ ") \x7b " ++ a.text ++ " \x7d else \x7b " ++ b.text ++ " \x7d"

def Func.text (f : Func) : String := f.proto ++ " \x7b " ++ (Stmt.block f.body).text ++ " \x7d"

/-! ## 実行 -/

/-- 実行時の環境。`memsys5Malloc` の呼び出しは一回の実行で高々一回なので、その結果だけを与える。 -/
structure World where
  -- 引数と大域変数の初めの値。
  vars : String → UInt64
  sizeof : String → UInt64
  field : String → String → UInt64
  app : String → List UInt64 → UInt64
  malloc : UInt64
  ocall : UInt64

/-- プールの操作の履歴の項目。 -/
inductive Event where
  | malloc (p : UInt64)
  | free (p : UInt64)
deriving DecidableEq

structure Run where
  vars : String → UInt64
  log : List Event

/-- 文の実行の結果。`abort` は `assert` の失敗である。 -/
inductive Outcome where
  | next (r : Run)
  | ret (r : Run)
  | abort (r : Run)

def Outcome.run : Outcome → Run
  | .next r | .ret r | .abort r => r

def flag (p : Prop) [Decidable p] : UInt64 := if p then 1 else 0

def Expr.eval (w : World) (r : Run) : Expr → UInt64
  | .var x => r.vars x
  | .null => 0
  | .num n => UInt64.ofInt n
  | .sizeof ty => w.sizeof ty
  | .field p f => w.field p f
  | .cast _ e | .sgxCast _ e | .paren e => e.eval w r
  | .first _ x => r.vars x
  | .app f a => w.app f [a.eval w r]
  | .app2 f a b => w.app f [a.eval w r, b.eval w r]
  | .add a b => a.eval w r + b.eval w r
  | .mul a b => a.eval w r * b.eval w r
  | .eq a b => flag (a.eval w r = b.eval w r)
  | .ne a b => flag (a.eval w r ≠ b.eval w r)
  | .and a b => flag (a.eval w r ≠ 0 ∧ b.eval w r ≠ 0)
  | .ite c a b => if c.eval w r ≠ 0 then a.eval w r else b.eval w r

def Run.set (r : Run) (x : String) (v : UInt64) : Run := { r with vars := Function.update r.vars x v }

def Run.note (r : Run) (ev : Event) : Run := { r with log := r.log ++ [ev] }

/-- 文の実行。`memsys5Free(NULL)` は先頭の `assert( pPrior!=0 )` で止まる。 -/
def Stmt.exec (w : World) : Stmt → Run → Outcome
  | .skip, r | .pragma _, r | .call _ _ _ _, r => .next r
  | .decl _ x e, r => .next (r.set x (e.eval w r))
  | .assign (.var x) e, r => .next (r.set x (e.eval w r))
  | .assign (.field _ _) _, r | .assign (.deref _) _, r => .next r
  | .addAssign x e, r => .next (r.set x (r.vars x + e.eval w r))
  | .malloc x _, r => .next ((r.set x w.malloc).note (.malloc w.malloc))
  | .free e, r =>
      if e.eval w r = 0 then .abort (r.note (.free 0)) else .next (r.note (.free (e.eval w r)))
  | .ocall x _ _, r => .next (r.set x w.ocall)
  | .ret _, r => .ret r
  | .seq a b, r =>
      match a.exec w r with
      | .next r => b.exec w r
      | o => o
  | .ite c a b, r => if c.eval w r ≠ 0 then a.exec w r else b.exec w r

/-- 関数の呼び出し。 -/
def Func.exec (w : World) (f : Func) : Outcome := (Stmt.block f.body).exec w { vars := w.vars, log := [] }

end Eleos.Edger
