import Eleos.Edger.Bridge

/-!
# 橋渡しの関数の守るべき決まり

履歴を順に読む監視器として、橋渡しの関数が信頼できないメモリをどのように扱うべきかを定める。
-/

namespace Eleos.Edger.Bridge

/-- 監視器の状態。`live` は確保したブロックの大きさ、`checked` はエンクレーブの外にあることを確かめた範囲である。 -/
structure Monitor where
  live : UInt64 → Option UInt64
  checked : List (UInt64 × UInt64)

namespace Monitor

def start : Monitor := ⟨fun _ => none, []⟩

/-- 向きのあるポインタの引数は、`NULL` か、エンクレーブの中の写しである。 -/
def argOk (m : Monitor) (pt : ParameterType) (v : UInt64) : Bool :=
  !ptrHasDirection pt || isForeignArray pt || v == 0 || (m.live v).isSome

def argsOk (m : Monitor) : List Pdecl → List UInt64 → Bool
  | [], [] => true
  | pd :: pds, v :: vs => m.argOk pd.1 v && m.argsOk pds vs
  | _, _ => false

/-- 一つの項目を読む。決まりに反すれば `none` である。 -/
def step (plist : List Pdecl) (m : Monitor) : Event → Option Monitor
  | .check p n => some { m with checked := (p, n) :: m.checked }
  | .malloc p n => if m.live p = none then some { m with live := Function.update m.live p (some n) } else none
  | .free p => if m.live p ≠ none then some { m with live := Function.update m.live p none } else none
  -- 片方は確保したブロックの全体であり、もう片方は同じ大きさで確かめた範囲である。
  | .memcpy d s n =>
      if (m.live d = some n ∧ (s, n) ∈ m.checked) ∨ (m.live s = some n ∧ (d, n) ∈ m.checked) then some m else none
  | .memset d n => if m.live d = some n then some m else none
  | .poke p off n =>
      match m.live p with
      | some k => if off.toNat + n.toNat ≤ k.toNat then some m else none
      | none => none
  | .call args => if m.argsOk plist args then some m else none

end Monitor

/-- 履歴を初めから読んだ監視器。 -/
def policy (plist : List Pdecl) (log : List Event) : Option Monitor := log.foldlM (Monitor.step plist) .start

/-- 履歴は決まりを守り、確保したブロックをすべて解放した。 -/
def Clean (plist : List Pdecl) (log : List Event) : Prop :=
  ∃ m, policy plist log = some m ∧ m.live = fun _ => none

/-! ## 宣言と環境の条件 -/

/-- 宣言する局所変数。 -/
def Stmt.declared? : Stmt → Option Var
  | .decl _ x _ => some x
  | _ => none

/-- 構文解析器を通り、C のコードとして翻訳できる宣言。 -/
structure Declared (fd : FuncDecl) : Prop where
  parsed : ∀ ty attr declr, (.ptPtr ty attr, declr) ∈ fd.plist → Parsed attr
  -- 同じ局所変数を二度宣言しない。
  distinct : ∀ cs cache, genTbridgeLocalVars fd.plist = .ok (cs, cache) → (cs.filterMap Stmt.declared?).Nodup

/-- 向きのあるポインタに `user_check` を付けない。 -/
def NoUserCheck (fd : FuncDecl) : Prop :=
  ∀ ty attr declr, (.ptPtr ty attr, declr) ∈ fd.plist → attr.direction ≠ .ptrNoDirection → attr.chkptr = true

/-- 文字列の長さ。 -/
structure World.Sizes (w : World) : Prop where
  wcharPos : w.sizeof "wchar_t" ≠ 0
  -- 終わりの 0 までを含む文字列は、番地の空間に収まる。
  strlen : ∀ t p, (w.app t "strlen" p).toNat + 1 < 18446744073709551616
  wcslen : ∀ t p, ((w.app t "wcslen" p).toNat + 1) * (w.sizeof "wchar_t").toNat < 18446744073709551616

/-- `string` は `char` の、`wstring` は `wchar_t` のポインタに付ける。 -/
structure World.Sane (w : World) (fd : FuncDecl) : Prop extends World.Sizes w where
  char : ∀ ty attr declr, (.ptPtr ty attr, declr) ∈ fd.plist → attr.isstr = true →
    w.sizeofAt (.inp declr.identifier) = 1
  wchar : ∀ ty attr declr, (.ptPtr ty attr, declr) ∈ fd.plist → attr.iswstr = true →
    w.sizeofAt (.inp declr.identifier) = w.sizeof "wchar_t"

end Eleos.Edger.Bridge
