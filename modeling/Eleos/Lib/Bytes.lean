import Eleos.Lib.Word

/-!
# バイトの並びとしてのメモリ

番地からバイトへの関数の上に、32 ビットの整数を下位のバイトから順に置く。
-/

namespace Eleos

/-- 番地からバイトへの関数としてのメモリ。 -/
abbrev Memory := Nat → UInt8

/-- 番地 `a` からの 4 バイトを符号付き整数として読む。 -/
@[irreducible] def load32 (m : Memory) (a : Nat) : Int :=
  int32 ((m a).toNat + 256 * (m (a + 1)).toNat + 65536 * (m (a + 2)).toNat + 16777216 * (m (a + 3)).toNat)

/-- 番地 `a` からの 4 バイトに `v` を書く。 -/
def store32 (m : Memory) (a : Nat) (v : Int) : Memory := fun x =>
  if x = a then UInt8.ofNat (v % 256).toNat
  else if x = a + 1 then UInt8.ofNat (v / 256 % 256).toNat
  else if x = a + 2 then UInt8.ofNat (v / 65536 % 256).toNat
  else if x = a + 3 then UInt8.ofNat (v / 16777216 % 256).toNat
  else m x

variable {m : Memory} {a b x : Nat} {v : Int}

theorem load32_range (m : Memory) (a : Nat) : -2147483648 ≤ load32 m a ∧ load32 m a < 2147483648 := by
  unfold load32
  exact int32_range _

theorem load32_congr {m' : Memory} (h : ∀ x, a ≤ x → x < a + 4 → m' x = m x) : load32 m' a = load32 m a := by
  unfold load32
  rw [h a (by omega) (by omega), h (a + 1) (by omega) (by omega), h (a + 2) (by omega) (by omega),
    h (a + 3) (by omega) (by omega)]

theorem store32_of_apart (h : x < a ∨ a + 4 ≤ x) : store32 m a v x = m x := by
  unfold store32
  rw [if_neg (by omega), if_neg (by omega), if_neg (by omega), if_neg (by omega)]

theorem load32_store32_of_apart (h : b + 4 ≤ a ∨ a + 4 ≤ b) : load32 (store32 m a v) b = load32 m b := by
  apply load32_congr
  intro x h₁ h₂
  exact store32_of_apart (by omega)

theorem toNat_byte : ((UInt8.ofNat (v % 256).toNat).toNat : Int) = v % 256 := by
  rw [UInt8.toNat_ofNat']
  omega

theorem load32_store32_self : load32 (store32 m a v) a = int32 v := by
  have h₀ : store32 m a v a = UInt8.ofNat (v % 256).toNat := if_pos rfl
  have h₁ : store32 m a v (a + 1) = UInt8.ofNat (v / 256 % 256).toNat := by simp [store32]
  have h₂ : store32 m a v (a + 2) = UInt8.ofNat (v / 65536 % 256).toNat := by simp [store32]
  have h₃ : store32 m a v (a + 3) = UInt8.ofNat (v / 16777216 % 256).toNat := by simp [store32]
  unfold load32
  rw [h₀, h₁, h₂, h₃]
  simp only [toNat_byte]
  have hsum : v % 256 + 256 * (v / 256 % 256) + 65536 * (v / 65536 % 256) + 16777216 * (v / 16777216 % 256) =
      v % 4294967296 := by omega
  rw [hsum]
  unfold int32
  omega

end Eleos
