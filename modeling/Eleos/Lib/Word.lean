import Mathlib.Tactic.Ring

/-!
# 機械語の整数と、停止する計算

C の `int` は 32 ビットの 2 の補数で折り返すものとし、`Int` の上の関数 `int32` で表す。
戻らない呼び出しは `Stop` の値で終わる計算として表す。
-/

namespace Eleos

/-- 呼び出しが値を返さずに終わる理由。 -/
inductive Stop where
  -- 検査（`ASSERT`、`assert`、`abort`）で止まる。
  | abort
  -- 配列や確保した領域の外へのアクセスに達する。
  | outOfBounds
  -- 繰り返しから抜けない。
  | spin
  -- 構築していない、または破棄したオブジェクトを使う。
  | noObject
  deriving DecidableEq, Repr

/-- 32 ビットの符号付き整数への折り返し。 -/
def int32 (x : Int) : Int := (x + 2147483648) % 4294967296 - 2147483648

/-- 32 ビットの符号なし整数への折り返し。 -/
def uint32 (x : Int) : Int := x % 4294967296

/-- 64 ビットの符号なし整数への折り返し。 -/
def uint64 (x : Int) : Int := x % 18446744073709551616

theorem int32_of_range {x : Int} (h₁ : -2147483648 ≤ x) (h₂ : x < 2147483648) : int32 x = x := by
  unfold int32; omega

theorem int32_range (x : Int) : -2147483648 ≤ int32 x ∧ int32 x < 2147483648 := by
  unfold int32; omega

/-- `int` の値二つの和は、一度だけ折り返しうる。 -/
theorem int32_cases {x : Int} (h₁ : -4294967296 ≤ x) (h₂ : x < 4294967296) :
    (int32 x = x ∧ -2147483648 ≤ x ∧ x < 2147483648) ∨ (int32 x = x - 4294967296 ∧ 2147483648 ≤ x) ∨
      (int32 x = x + 4294967296 ∧ x < -2147483648) := by
  unfold int32; omega

theorem int32_add_left (x y : Int) : int32 (int32 x + y) = int32 (x + y) := by
  unfold int32; omega

theorem int32_add_right (x y : Int) : int32 (x + int32 y) = int32 (x + y) := by
  unfold int32; omega

theorem int32_sub (x y : Int) : int32 (int32 x - int32 y) = int32 (x - y) := by
  unfold int32; omega

def check (p : Prop) [Decidable p] : Except Stop Unit :=
  if p then .ok () else .error .abort

theorem check_ok_iff {p : Prop} [Decidable p] {u : Unit} : check p = .ok u ↔ p := by
  unfold check; split <;> simp_all

/-- 値を返す計算の結果が、返るときには `P` を満たすことの判定。 -/
instance decidableForallOk {ε α : Type} (e : Except ε α) (P : α → Prop) [DecidablePred P] :
    Decidable (∀ a, e = .ok a → P a) :=
  match e with
  | .ok a => decidable_of_iff (P a) ⟨fun hp _ he => Except.ok.inj he ▸ hp, fun h => h a rfl⟩
  | .error _ => isTrue fun _ he => nomatch he

/-- 値を返す計算の結果が `P` を満たすことの判定。 -/
instance decidableExistsOk {ε α : Type} (e : Except ε α) (P : α → Prop) [DecidablePred P] :
    Decidable (∃ a, e = .ok a ∧ P a) :=
  match e with
  | .ok a => decidable_of_iff (P a) ⟨fun hp => ⟨a, rfl, hp⟩, fun ⟨_, he, hp⟩ => Except.ok.inj he ▸ hp⟩
  | .error _ => isFalse fun ⟨_, he, _⟩ => nomatch he

theorem bind_ok_iff {ε α β : Type} {x : Except ε α} {f : α → Except ε β} {b : β} :
    (x >>= f) = .ok b ↔ ∃ a, x = .ok a ∧ f a = .ok b := by
  cases x with
  | ok a => simp [Bind.bind, Except.bind]
  | error e => simp [Bind.bind, Except.bind]

theorem bind_error_iff {ε α β : Type} {x : Except ε α} {f : α → Except ε β} {e : ε} :
    (x >>= f) = .error e ↔ x = .error e ∨ ∃ a, x = .ok a ∧ f a = .error e := by
  cases x with
  | ok a => simp [Bind.bind, Except.bind]
  | error e => simp [Bind.bind, Except.bind]

end Eleos
