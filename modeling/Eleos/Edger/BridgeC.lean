import Eleos.Edger.Ast
import Eleos.Lib.Exit
import Mathlib.Logic.Function.Basic

/-!
# 橋渡しの関数の C のコード

信頼側の橋渡しの関数が使う範囲の C の構文と、その実行を定める。構造体の欄と、渡されたポインタの指す先は信頼できないメモリにあり、
ホストは、エンクレーブが読むたびに異なる値を見せてよい。値は 64 ビットの語であり、番地の 0 は `NULL` である。
-/

namespace Eleos.Edger.Bridge

/-! ## 構文 -/

/-- `mk_tmp_var`。 -/
def mkTmpVar (name : String) : String := "_tmp_" ++ name

/-- `mk_in_var`。 -/
def mkInVar (name : String) : String := "_in_" ++ name

/-- 局所変数。 -/
inductive Var where
  | status
  -- `mk_tmp_var`、`mk_len_var`、`mk_in_var` の名前の変数。
  | tmp (name : String)
  | len (name : String)
  | inp (name : String)
  deriving DecidableEq

def Var.text : Var → String
  | .status => "status"
  | .tmp name => mkTmpVar name
  | .len name => "_len_" ++ name
  | .inp name => mkInVar name

inductive Expr where
  | var (x : Var)
  | null
  | const (v : String)
  | num (n : Int)
  | sizeof (ty : String)
  -- `sizeof(*x)`。
  | sizeofAt (x : Var)
  -- `ms->f`。
  | field (f : String)
  | cast (ty : String) (e : Expr)
  -- 指す先を読む関数の呼び出し。
  | app (f : String) (e : Expr)
  -- `*e`。
  | load (e : Expr)
  | add (a b : Expr)
  | sub (a b : Expr)
  | mul (a b : Expr)
  | div (a b : Expr)
  | eq (a b : Expr)
  | ne (a b : Expr)
  | ite (c a b : Expr)
  | paren (e : Expr)

inductive Stmt where
  | skip
  | raw (code : String)
  | decl (ty : String) (x : Var) (e : Expr)
  -- `status = v;`。
  | setStatus (v : String)
  -- `if (cnt > (SIZE_MAX / size)) { a }`。
  | ifAbove (cnt size : Expr) (a : Stmt)
  -- `CHECK_REF_POINTER(pms, e);`。
  | checkRef (e : Expr)
  -- `CHECK_UNIQUE_POINTER(x, n);`。
  | checkUnique (x n : Var)
  -- `if (pms != NULL) return v;`。
  | retIfPms (v : String)
  -- `x = (ty)malloc(n);`。
  | malloc (x : Var) (ty : String) (n : Var)
  | memcpy (d s : Expr) (n : Var)
  | memset (d : Expr) (n : Var)
  -- `x[i] = v;`。
  | poke (x : Var) (i : Expr) (v : String)
  | free (e : Expr)
  -- `f(args);` または `ms->ms_retval = f(args);`。
  | call (lhs : Option Expr) (f : String) (args : List Expr)
  | goto
  | ret (x : Var)
  | seq (a b : Stmt)
  | ite (c : Expr) (a b : Stmt)

/-- 文の並び。 -/
def Stmt.block (cs : List Stmt) : Stmt := cs.foldr .seq .skip

/-- 関数。`err` は、ラベル `err:` を置くかを表す。 -/
structure Func where
  proto : String
  body : List Stmt
  err : Bool
  post : List Stmt

/-! ## 文字列 -/

def Expr.text : Expr → String
  | .var x => x.text
  | .null => "NULL"
  | .const v => v
  | .num n => toString n
  | .sizeof ty => "sizeof(" ++ ty ++ ")"
  | .sizeofAt x => "sizeof(*" ++ x.text ++ ")"
  | .field f => "ms->" ++ f
  | .cast ty e => "(" ++ ty ++ ")" ++ e.text
  | .app f e => f ++ "(" ++ e.text ++ ")"
  | .load e => "(*" ++ e.text ++ ")"
  | .add a b => a.text ++ " + " ++ b.text
  | .sub a b => a.text ++ " - " ++ b.text
  | .mul a b => a.text ++ " * " ++ b.text
  | .div a b => a.text ++ "/" ++ b.text
  | .eq a b => a.text ++ " == " ++ b.text
  | .ne a b => a.text ++ " != " ++ b.text
  | .ite c a b => c.text ++ " ? " ++ a.text ++ " : " ++ b.text
  | .paren e => "(" ++ e.text ++ ")"

/-- 文の文字列。字下げと改行の位置は生成器と異なる。`PtrOut` の `malloc` は、生成器では `if` の条件の中に書く。 -/
def Stmt.text : Stmt → String
  | .skip => ""
  | .raw code => code
  | .decl ty x e => ty ++ " " ++ x.text ++ " = " ++ e.text ++ ";"
  | .setStatus v => "status = " ++ v ++ ";"
  | .ifAbove cnt size a => "if (" ++ cnt.text ++ " > (SIZE_MAX / " ++ size.text ++ ")) \x7b " ++ a.text ++ " \x7d"
  | .checkRef e => "CHECK_REF_POINTER(pms, " ++ e.text ++ ");"
  | .checkUnique x n => "CHECK_UNIQUE_POINTER(" ++ x.text ++ ", " ++ n.text ++ ");"
  | .retIfPms v => "if (pms != NULL) return " ++ v ++ ";"
  | .malloc x ty n => x.text ++ " = (" ++ ty ++ ")malloc(" ++ n.text ++ ");"
  | .memcpy d s n => "memcpy(" ++ d.text ++ ", " ++ s.text ++ ", " ++ n.text ++ ");"
  | .memset d n => "memset(" ++ d.text ++ ", 0, " ++ n.text ++ ");"
  | .poke x i v => x.text ++ "[" ++ i.text ++ "] = " ++ v ++ ";"
  | .free e => "free(" ++ e.text ++ ");"
  | .call none f args => f ++ "(" ++ ", ".intercalate (args.map Expr.text) ++ ");"
  | .call (some l) f args => l.text ++ " = " ++ f ++ "(" ++ ", ".intercalate (args.map Expr.text) ++ ");"
  | .goto => "goto err;"
  | .ret x => "return " ++ x.text ++ ";"
  | .seq a .skip => a.text
  | .seq a b => a.text ++ " " ++ b.text
  | .ite c a .skip => "if (" ++ c.text ++ ") \x7b " ++ a.text ++ " \x7d"
  | .ite c a b => "if (" ++ c.text ++ ") \x7b " ++ a.text ++ " \x7d else \x7b " ++ b.text ++ " \x7d"

def Func.text (f : Func) : String :=
  f.proto ++ " \x7b " ++ (Stmt.block f.body).text ++ (if f.err then " err: " else " ") ++ (Stmt.block f.post).text ++
    " \x7d"

/-! ## 実行 -/

/-- 実行時の環境。時刻は、信頼できないメモリを読むたび、`malloc` を呼ぶたびに進む。 -/
structure World where
  -- 局所変数の初めの値。
  vars : Var → UInt64
  pms : UInt64
  -- 定数の値。
  const : String → UInt64
  sizeof : String → UInt64
  sizeofAt : Var → UInt64
  field : Nat → String → UInt64
  app : Nat → String → UInt64 → UInt64
  load : Nat → UInt64 → UInt64
  -- `sgx_is_outside_enclave`。
  outside : UInt64 → UInt64 → Bool
  malloc : Nat → UInt64
  -- 解放するまで、`malloc` は同じ番地を二度返さない。
  fresh : ∀ i j, malloc i = malloc j → malloc i ≠ 0 → i = j

/-- 履歴の項目。 -/
inductive Event where
  -- `[p, p + n)` がエンクレーブの外にあることを確かめた。
  | check (p n : UInt64)
  | malloc (p n : UInt64)
  | free (p : UInt64)
  | memcpy (d s n : UInt64)
  | memset (d n : UInt64)
  -- `[p + off, p + off + n)` への書き込み。
  | poke (p off n : UInt64)
  | call (args : List UInt64)
  deriving DecidableEq

structure Run where
  vars : Var → UInt64
  clock : Nat
  log : List Event

def Run.set (r : Run) (x : Var) (v : UInt64) : Run := { r with vars := Function.update r.vars x v }

def Run.note (r : Run) (ev : Event) : Run := { r with log := r.log ++ [ev] }

def Run.tick (r : Run) (t : Nat) : Run := { r with clock := t }

/-- 式の値と、読んだあとの時刻。 -/
def Expr.eval (w : World) (vars : Var → UInt64) : Expr → Nat → UInt64 × Nat
  | .var x, t => (vars x, t)
  | .null, t => (0, t)
  | .const v, t => (w.const v, t)
  | .num n, t => (UInt64.ofInt n, t)
  | .sizeof ty, t => (w.sizeof ty, t)
  | .sizeofAt x, t => (w.sizeofAt x, t)
  | .field f, t => (w.field t f, t + 1)
  | .cast _ e, t | .paren e, t => e.eval w vars t
  | .app f e, t =>
      let (v, t) := e.eval w vars t
      (w.app t f v, t + 1)
  | .load e, t =>
      let (v, t) := e.eval w vars t
      (w.load t v, t + 1)
  | .add a b, t =>
      let (x, t) := a.eval w vars t
      let (y, t) := b.eval w vars t
      (x + y, t)
  | .sub a b, t =>
      let (x, t) := a.eval w vars t
      let (y, t) := b.eval w vars t
      (x - y, t)
  | .mul a b, t =>
      let (x, t) := a.eval w vars t
      let (y, t) := b.eval w vars t
      (x * y, t)
  | .div a b, t =>
      let (x, t) := a.eval w vars t
      let (y, t) := b.eval w vars t
      (x / y, t)
  | .eq a b, t =>
      let (x, t) := a.eval w vars t
      let (y, t) := b.eval w vars t
      (if x = y then 1 else 0, t)
  | .ne a b, t =>
      let (x, t) := a.eval w vars t
      let (y, t) := b.eval w vars t
      (if x ≠ y then 1 else 0, t)
  | .ite c a b, t =>
      let (v, t) := c.eval w vars t
      if v ≠ 0 then a.eval w vars t else b.eval w vars t

/-- 引数の値。 -/
def evalArgs (w : World) (vars : Var → UInt64) : List Expr → Nat → List UInt64 × Nat
  | [], t => ([], t)
  | e :: es, t =>
      let (v, t) := e.eval w vars t
      let (vs, t) := evalArgs w vars es t
      (v :: vs, t)

/-- 文の実行。 -/
def Stmt.exec (w : World) : Stmt → Cmd Run
  | .skip, r | .raw _, r => .next r
  | .decl _ x e, r =>
      let (v, t) := e.eval w r.vars r.clock
      .next ((r.set x v).tick t)
  | .setStatus v, r => .next (r.set .status (w.const v))
  | .ifAbove cnt size a, r =>
      let (c, t) := cnt.eval w r.vars r.clock
      let (n, t) := size.eval w r.vars t
      -- 0 で割ると、例外で止まる。
      if n = 0 then .trap (r.tick t)
      else if w.const "SIZE_MAX" / n < c then a.exec w (r.tick t) else .next (r.tick t)
  | .checkRef e, r =>
      let (n, t) := e.eval w r.vars r.clock
      if w.pms ≠ 0 ∧ w.outside w.pms n = true then .next (r.tick t) else .ret (r.tick t)
  | .checkUnique x n, r =>
      if r.vars x = 0 then .next r
      else if w.outside (r.vars x) (r.vars n) = true then .next (r.note (.check (r.vars x) (r.vars n))) else .ret r
  | .retIfPms _, r => if w.pms ≠ 0 then .ret r else .next r
  | .malloc x _ n, r =>
      let p := w.malloc r.clock
      let r' := (r.set x p).tick (r.clock + 1)
      .next (if p = 0 then r' else r'.note (.malloc p (r.vars n)))
  | .memcpy d s n, r =>
      let (p, t) := d.eval w r.vars r.clock
      let (q, t) := s.eval w r.vars t
      .next ((r.tick t).note (.memcpy p q (r.vars n)))
  | .memset d n, r =>
      let (p, t) := d.eval w r.vars r.clock
      .next ((r.tick t).note (.memset p (r.vars n)))
  | .poke x i _, r =>
      let (k, t) := i.eval w r.vars r.clock
      .next ((r.tick t).note (.poke (r.vars x) (k * w.sizeofAt x) (w.sizeofAt x)))
  | .free e, r =>
      let (p, t) := e.eval w r.vars r.clock
      .next ((r.tick t).note (.free p))
  | .call _ _ args, r =>
      let (vs, t) := evalArgs w r.vars args r.clock
      .next ((r.tick t).note (.call vs))
  | .goto, r => .jump r
  | .ret _, r => .ret r
  | .seq a b, r => Cmd.seq (a.exec w) (b.exec w) r
  | .ite c a b, r =>
      let (v, t) := c.eval w r.vars r.clock
      if v ≠ 0 then a.exec w (r.tick t) else b.exec w (r.tick t)

/-- 関数の呼び出し。ラベルのない `goto` は、C のコードとして翻訳できない。 -/
def Func.exec (w : World) (f : Func) : Exit Run :=
  let run : Run := { vars := w.vars, clock := 0, log := [] }
  let post := (Stmt.block f.post).exec w
  if f.err then Cmd.label ((Stmt.block f.body).exec w) post run else Cmd.seq ((Stmt.block f.body).exec w) post run

end Eleos.Edger.Bridge
