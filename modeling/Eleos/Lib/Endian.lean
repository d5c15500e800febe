import Mathlib.Data.Nat.Init
import Mathlib.Tactic.Ring

/-!
# 下位のバイトから並べた整数
-/

namespace Eleos

/-- `v` の下位の `k` バイト。 -/
def leBytes : Nat → Nat → List UInt8
  | 0, _ => []
  | k + 1, v => UInt8.ofNat v :: leBytes k (v / 256)

/-- バイトの並びの表す整数。 -/
def ofLe : List UInt8 → Nat
  | [] => 0
  | b :: bs => b.toNat + 256 * ofLe bs

theorem leBytes_length (k v : Nat) : (leBytes k v).length = k := by
  induction k generalizing v with
  | zero => rfl
  | succ k ih => rw [leBytes, List.length_cons, ih]

theorem ofLe_leBytes (k v : Nat) : ofLe (leBytes k v) = v % 256 ^ k := by
  induction k generalizing v with
  | zero => rw [Nat.pow_zero, Nat.mod_one]; rfl
  | succ k ih =>
      have hdiv : v / 256 % 256 ^ k = v % 256 ^ (k + 1) / 256 := by
        rw [Nat.pow_succ', Nat.mod_mul_right_div_self]
      have hmod : v % 256 ^ (k + 1) % 256 = v % 256 := Nat.mod_mod_of_dvd v (Dvd.intro_left (256 ^ k) rfl)
      rw [leBytes, ofLe, ih, hdiv, UInt8.toNat_ofNat']
      omega

/-- 64 ビットの語の 8 バイト。 -/
def wordBytes (v : UInt64) : List UInt8 := leBytes 8 v.toNat

/-- 8 バイトの表す語。 -/
def ofWordBytes (bs : List UInt8) : UInt64 := UInt64.ofNat (ofLe bs)

theorem wordBytes_length (v : UInt64) : (wordBytes v).length = 8 := leBytes_length 8 v.toNat

theorem ofWordBytes_wordBytes (v : UInt64) : ofWordBytes (wordBytes v) = v := by
  have hv : v.toNat % 256 ^ 8 = v.toNat := Nat.mod_eq_of_lt v.toNat_lt
  unfold ofWordBytes wordBytes
  rw [ofLe_leBytes, hv, UInt64.ofNat_toNat]

end Eleos
