import Eleos.Pager.Run

/-!
# つながっていない `Aptr` の偏り

つながっていない `Aptr` の `offset` は、構築と複写のときに一ページずつ大きくしてあるので、ふつうは `[0, PAGE_SIZE)` の外にある。
`offset` をどのページから測っているかは、構築と複写と参照の履歴だけで決まる。
-/

namespace Eleos.Pager

/-- `Aptr` の履歴。`addr` は指す番地、`home` は `offset` を測る元のページである。 -/
structure Trail where
  addr : Int
  home : Int
  linked : Bool

namespace Trail

/-- 構築では、指す番地の一つ前のページから測る。 -/
def construct (x : Int) : Trail := { addr := x, home := x / pageSize - 1, linked := false }

/-- 複写では、元の `Aptr` よりさらに一つ前のページから測る。 -/
def doCopy (t : Trail) : Trail := { t with home := t.home - 1, linked := false }

def move (t : Trail) (sizeofT : Nat) (k : Int) : Trail := { t with addr := t.addr + k * sizeofT }

/-- 指す番地が `home` のページの外にある。`offset` は 32 ビットなので、ページの差は `2^20` を法として比べる。 -/
def Away (t : Trail) : Prop := (t.addr / pageSize - t.home) % 1048576 ≠ 0

instance (t : Trail) : Decidable t.Away := inferInstanceAs (Decidable (_ ≠ _))

/-- 参照をたどると、指す番地のページにつながる。つながらずに `home` のページを指すときは何も変わらない。 -/
def deref (t : Trail) : Trail :=
  if t.linked ∨ t.Away then { t with home := t.addr / pageSize, linked := true } else t

end Trail

/-- 操作の前後の履歴。ないオブジェクトと空の `Aptr` の履歴は `none` である。 -/
def trailStep (l : List (Option Trail)) : Op → List (Option Trail)
  | .construct x _ => l ++ [some (Trail.construct x)]
  | .null _ => l ++ [none]
  | .copy src => l ++ [l[src]?.join.map Trail.doCopy]
  | .assign dst src => (l.set dst none).set dst ((l.set dst none)[src]?.join.map Trail.doCopy)
  | .move d sizeofT k => l.set d (l[d]?.join.map fun t => t.move sizeofT k)
  | .hint _ _ => l
  | .read d | .write d _ => l.set d (l[d]?.join.map Trail.deref)
  | .reset d | .destroy d => l.set d none

/-- 操作の列が残す履歴。 -/
def trails (ops : List Op) : List (Option Trail) := ops.foldl trailStep []

/-- 参照をたどるオブジェクト。 -/
def Op.deref? : Op → Option Nat
  | .read d | .write d _ => some d
  | _ => none

/-- 空でない `Aptr` がつながっていなければ `deref` は `page_fault` を通り、`DUMMY` から計算した番地を返さない。 -/
structure Sys.DerefSafe (cfg : Config) (G : Gcm) (s : Sys) (d : Nat) : Prop where
  fault : ∀ a, s.get d = .ok a → 0 ≤ a.basePageIndex → a.prmPtr = none → isValid a.offset = false
  real : ∀ a st a' x, s.get d = .ok a → 0 ≤ a.basePageIndex → deref cfg G id s.state a = .ok (st, a', x) →
    a'.prmPtr ≠ none

/-- 実行の中で参照をたどるところは、すべて安全である。 -/
def FastPathLinked (cfg : Config) (G : Gcm) (s₀ : Sys) (ops : List Op) : Prop :=
  ∀ pre op post d s, ops = pre ++ op :: post → op.deref? = some d → s₀.run cfg G pre = .ok s → s.DerefSafe cfg G d

/-- 実行の中で参照をたどる `Aptr` は、すでにつながっているか、`home` のページの外を指す。 -/
def DerefsAway (cfg : Config) (G : Gcm) (s₀ : Sys) (ops : List Op) : Prop :=
  ∀ pre op post d s, ops = pre ++ op :: post → op.deref? = some d → s₀.run cfg G pre = .ok s →
    ∀ t, (trails pre)[d]?.join = some t → t.linked = true ∨ t.Away

end Eleos.Pager
