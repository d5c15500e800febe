import Mathlib.Logic.Function.Basic
import Mathlib.Data.List.Basic

/-!
# 環状の待ち行列

大きさ `size` の配列と、増えるだけの二つの番号 `front`、`rear` による待ち行列。番号を `size` で割った余りの位置を使う。
並び `toList` が待ち行列の中身であり、操作は並びの上の操作に対応する。
-/

namespace Eleos

structure Ring (α : Type) where
  size : Nat
  front : Nat
  rear : Nat
  q : Nat → α

namespace Ring

variable {α : Type} {r : Ring α} {x : α}

/-- 待ち行列の中身。先頭が次に取り出す要素である。 -/
def toList (r : Ring α) : List α :=
  (List.range (r.rear - r.front)).map fun k => r.q ((r.front + k) % r.size)

/-- 末尾に加える。空きがあるときに使う。 -/
def push (r : Ring α) (x : α) : Ring α :=
  { r with q := Function.update r.q (r.rear % r.size) x, rear := r.rear + 1 }

/-- 先頭を取り除く。空でないときに使う。 -/
def pop (r : Ring α) : Ring α := { r with front := r.front + 1 }

def top (r : Ring α) : α := r.q (r.front % r.size)

/-- 番号の関係。要素の個数は配列の大きさを超えない。 -/
structure Wf (r : Ring α) : Prop where
  le : r.front ≤ r.rear
  room : r.rear - r.front ≤ r.size

@[simp] theorem toList_length (r : Ring α) : r.toList.length = r.rear - r.front := by
  simp [toList]

theorem index_ne {n f k m : Nat} (hk : f + k < m) (hm : m < f + n) : (f + k) % n ≠ m % n := by
  intro h
  have hd : (m - (f + k)) % n = 0 := Nat.sub_mod_eq_zero_of_mod_eq h.symm
  have hlt : m - (f + k) < n := by omega
  rw [Nat.mod_eq_of_lt hlt] at hd
  omega

theorem toList_push (h : r.Wf) (hroom : r.rear - r.front < r.size) :
    (r.push x).toList = r.toList ++ [x] := by
  have hle := h.le
  have hn : r.rear + 1 - r.front = (r.rear - r.front) + 1 := by omega
  simp only [toList, push, hn, List.range_succ, List.map_append, List.map_cons, List.map_nil]
  congr 1
  · apply List.map_congr_left
    intro k hk
    have hk' := List.mem_range.mp hk
    rw [Function.update_of_ne]
    exact index_ne (by omega) (by omega)
  · rw [show r.front + (r.rear - r.front) = r.rear by omega, Function.update_self]

theorem toList_pop (hne : r.front < r.rear) : r.toList = r.top :: r.pop.toList := by
  have hn : r.rear - r.front = (r.rear - (r.front + 1)) + 1 := by omega
  simp only [toList, pop, top, hn, List.range_succ_eq_map, List.map_cons, List.map_map, Nat.add_zero]
  congr 1
  apply List.map_congr_left
  intro k _
  simp only [Function.comp]
  rw [show r.front + (k + 1) = r.front + 1 + k by omega]

theorem Wf.push (h : r.Wf) (hroom : r.rear - r.front < r.size) : (r.push x).Wf :=
  ⟨by have := h.le; simp only [Ring.push]; omega, by have := h.le; simp only [Ring.push]; omega⟩

theorem Wf.pop (h : r.Wf) (hne : r.front < r.rear) : r.pop.Wf :=
  ⟨by simp only [Ring.pop]; omega, by have := h.room; simp only [Ring.pop]; omega⟩

/-! ## 番号の折り返し -/

/-- 番号を `w` で割った余りで持つ待ち行列。 -/
def wrap (w : Nat) (r : Ring α) : Ring α := { r with front := r.front % w, rear := r.rear % w }

@[simp] theorem wrap_size (w : Nat) (r : Ring α) : (r.wrap w).size = r.size := rfl

/-- `w` より小さい番号の、`w` を法とする差。 -/
def count (w : Nat) (r : Ring α) : Nat := (r.rear + (w - r.front)) % w

variable {w : Nat}

theorem count_wrap (h : r.Wf) (hw : r.size < w) : (r.wrap w).count w = r.rear - r.front := by
  have hle := h.le
  have hroom := h.room
  have hmod : r.front % w < w := Nat.mod_lt _ (by omega)
  have hdiv := Nat.div_add_mod r.front w
  have hsum : r.rear + (w - r.front % w) = r.rear - r.front + w * (r.front / w + 1) := by
    rw [Nat.mul_add, Nat.mul_one]
    omega
  calc (r.rear % w + (w - r.front % w)) % w
      = (r.rear + (w - r.front % w)) % w := Nat.mod_add_mod ..
    _ = (r.rear - r.front + w * (r.front / w + 1)) % w := by rw [hsum]
    _ = (r.rear - r.front) % w := Nat.add_mul_mod_self_left ..
    _ = r.rear - r.front := Nat.mod_eq_of_lt (by omega)

theorem wrap_empty_iff (h : r.Wf) (hw : r.size < w) : (r.wrap w).front = (r.wrap w).rear ↔ r.front = r.rear := by
  constructor
  · intro heq
    have hle := h.le
    have hroom := h.room
    have hdiff : (r.rear - r.front) % w = 0 := Nat.sub_mod_eq_zero_of_mod_eq heq.symm
    rw [Nat.mod_eq_of_lt (by omega)] at hdiff
    omega
  · intro heq
    rw [wrap, heq]

/-- `size` が `w` を割り切れば、折り返しは `q` の位置に現れない。 -/
theorem top_wrap (hd : r.size ∣ w) : (r.wrap w).top = r.top :=
  congrArg r.q (Nat.mod_mod_of_dvd r.front hd)

theorem push_wrap (hd : r.size ∣ w) : ((r.wrap w).push x).wrap w = (r.push x).wrap w := by
  simp only [wrap, push, Nat.mod_mod, Nat.mod_add_mod, Nat.mod_mod_of_dvd r.rear hd]

theorem pop_wrap : (r.wrap w).pop.wrap w = r.pop.wrap w := by
  simp only [wrap, pop, Nat.mod_mod, Nat.mod_add_mod]

end Ring

end Eleos
