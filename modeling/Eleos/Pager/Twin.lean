import Eleos.Pager.Run

/-!
# 二つの実行の比較

ページ `p` の外に書く値だけが違う、二つの操作の列を比べる。
-/

namespace Eleos.Pager

/-- 同じ操作であるか、ページ `p` の外への書き込みで、値だけが違う。 -/
inductive Op.AgreeOff (p : Int) (s : Sys) : Op → Op → Prop where
  | same (op : Op) : AgreeOff p s op op
  | write {d : Nat} {a : Aptr} (v w : UInt8) : s.get d = .ok a → a.addr / pageSize ≠ p →
      AgreeOff p s (.write d v) (.write d w)

/-- 実行のどの時点でも、ページ `p` の外に書く値だけが違う。 -/
def AgreeAlong (cfg : Config) (G : Gcm) (p : Int) (s : Sys) : List Op → List Op → Prop
  | [], [] => True
  | op :: ops, op' :: ops' =>
      op.AgreeOff p s op' ∧ ∀ s', s.step cfg G id op = .ok s' → AgreeAlong cfg G p s' ops ops'
  | _, _ => False

/-- ページ `p` から読んだ値。新しい順に並ぶ。 -/
def readsOf (p : Int) : List Event → List UInt8
  | [] => []
  | .read x v :: l => if x / pageSize = p then v :: readsOf p l else readsOf p l
  | _ :: l => readsOf p l

/-- 枠 `i` に読み込んだページは `p` だけである。 -/
def Sole (p : Int) (i : Nat) (l : List Event) : Prop := ∀ q e c, .load q i e c ∈ l → q = p

/-- ページ `p` を復号せずに読み込んだ最後の枠は、それまで `p` のほかのページに使われていない。 -/
def Private (p : Int) : List Event → Prop
  | [] => True
  | .load q i none _ :: l => if q = p then Sole p i l else Private p l
  | _ :: l => Private p l

/-- 二つの履歴は、追い出しと読み込みのページと枠、読み書きの番地が同じであり、ページ `p` の読みの値は、
その番地に書き込みがあったとき、またはページの枠がほかのページに使われていないときに等しい。 -/
inductive Alike (p : Int) : List Event → List Event → Prop where
  | nil : Alike p [] []
  | evict {l m : List Event} {q : Int} {e e' : Option Seal} : Alike p l m → e.isSome = e'.isSome →
      Alike p (.evict q e :: l) (.evict q e' :: m)
  | load {l m : List Event} {q : Int} {i : Nat} {e e' : Option Seal} {c c' : Page} : Alike p l m →
      e.isSome = e'.isSome → Alike p (.load q i e c :: l) (.load q i e' c' :: m)
  | read {l m : List Event} {x : Int} {v v' : UInt8} : Alike p l m →
      (x / pageSize = p → lastWrite l x ≠ none ∨ Private p l → v = v') →
      Alike p (.read x v :: l) (.read x v' :: m)
  | write {l m : List Event} {x : Int} {v v' : UInt8} : Alike p l m → (x / pageSize = p → v = v') →
      Alike p (.write x v :: l) (.write x v' :: m)

end Eleos.Pager
