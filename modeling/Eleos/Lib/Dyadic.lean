import Mathlib.Data.Set.Basic
import Mathlib.Algebra.Order.Ring.Int
import Mathlib.Tactic.Linarith
import Mathlib.Tactic.Ring

/-!
# 2 のべきの大きさのブロックによる区間の分割

大きさが 2 のべきで、その大きさの倍数から始まるブロックで、区間 `[0, n)` を重なりなく覆う。
同じ大きさの相手どうしが残っていない分割は、`n` だけで決まる。
-/

namespace Eleos

theorem two_pow_pos (k : Nat) : (0 : Int) < 2 ^ k := Int.pow_pos (by decide)

theorem two_pow_le {j k : Nat} (h : j ≤ k) : (2 : Int) ^ j ≤ 2 ^ k := by
  exact_mod_cast Nat.pow_le_pow_right (by decide) h

theorem two_pow_dvd {j k : Nat} (h : j ≤ k) : (2 : Int) ^ j ∣ 2 ^ k := pow_dvd_pow 2 h

/-- `start` から始まる大きさ `2 ^ log` のブロック。 -/
structure Block where
  start : Int
  log : Nat
  deriving DecidableEq

namespace Block

def stop (b : Block) : Int := b.start + 2 ^ b.log

/-- `x` はブロックの中にある。 -/
def Has (b : Block) (x : Int) : Prop := b.start ≤ x ∧ x < b.stop

def Aligned (b : Block) : Prop := (2 : Int) ^ b.log ∣ b.start

variable {b c : Block} {x : Int}

theorem has_start (b : Block) : b.Has b.start := by
  have := two_pow_pos b.log
  exact ⟨Int.le_refl _, by unfold stop; omega⟩

theorem has_last (b : Block) : b.Has (b.stop - 1) := by
  have := two_pow_pos b.log
  unfold Has stop
  omega

/-- 重なる二つのブロックは、大きい方が小さい方を含む。 -/
theorem Aligned.nested (hb : b.Aligned) (hc : c.Aligned) (hle : b.log ≤ c.log) (hxb : b.Has x) (hxc : c.Has x) :
    c.start ≤ b.start ∧ b.stop ≤ c.stop := by
  obtain ⟨u, hu⟩ := hb
  obtain ⟨v, hv⟩ := (two_pow_dvd hle).trans hc
  obtain ⟨w, hw⟩ := two_pow_dvd hle
  have hpos := two_pow_pos b.log
  obtain ⟨h₁, h₂⟩ := hxb
  obtain ⟨h₃, h₄⟩ := hxc
  unfold stop at h₂ h₄ ⊢
  rw [hu] at h₁ h₂ ⊢
  rw [hv] at h₃ h₄ ⊢
  rw [hw] at h₄ ⊢
  have h₅ : v < u + 1 := by
    apply lt_of_mul_lt_mul_left (a := (2 : Int) ^ b.log) _ hpos.le
    linarith
  have h₆ : u < v + w := by
    apply lt_of_mul_lt_mul_left (a := (2 : Int) ^ b.log) _ hpos.le
    linarith
  constructor
  · exact mul_le_mul_of_nonneg_left (by omega) hpos.le
  · have := mul_le_mul_of_nonneg_left (show u + 1 ≤ v + w by omega) hpos.le
    linarith

theorem Aligned.eq_of_log (hb : b.Aligned) (hc : c.Aligned) (hlog : b.log = c.log) (hxb : b.Has x) (hxc : c.Has x) :
    b = c := by
  obtain ⟨h₁, _⟩ := hb.nested hc hlog.le hxb hxc
  obtain ⟨h₂, _⟩ := hc.nested hb hlog.ge hxc hxb
  cases b with
  | mk s k =>
      cases c with
      | mk t j =>
          dsimp only at *
          rw [hlog, Int.le_antisymm h₂ h₁]

/-- ブロックの大きさの倍数で、ブロックの中にあるのは先頭だけである。 -/
theorem Aligned.start_eq (hb : b.Aligned) (hx : (2 : Int) ^ b.log ∣ x) (hxb : b.Has x) : b.start = x := by
  have h := hb.eq_of_log (c := ⟨x, b.log⟩) hx rfl hxb (has_start _)
  rw [h]

end Block

/-! ## 分割 -/

/-- `B` のブロックは `[0, n)` を重なりなく覆う。 -/
structure Tiling (n : Int) (B : Set Block) : Prop where
  inside : ∀ b ∈ B, 0 ≤ b.start ∧ b.stop ≤ n
  aligned : ∀ b ∈ B, b.Aligned
  cover : ∀ x, 0 ≤ x → x < n → ∃ b ∈ B, b.Has x
  disjoint : ∀ b ∈ B, ∀ c ∈ B, ∀ x, b.Has x → c.Has x → b = c

/-- 同じ大きさの相手どうしが、ともに `F` に入ることはない。 -/
def NoBuddies (F : Set Block) : Prop :=
  ∀ s k, (2 : Int) ^ (k + 1) ∣ s → (⟨s, k⟩ : Block) ∈ F → (⟨s + 2 ^ k, k⟩ : Block) ∉ F

theorem NoBuddies.mono {F G : Set Block} (h : NoBuddies F) (hsub : ∀ b ∈ G, b ∈ F) : NoBuddies G :=
  fun s k hs hlo hhi => h s k hs (hsub _ hlo) (hsub _ hhi)

/-- 相手どうしの残らないブロックが覆う範囲は、その範囲以上の大きさの一つのブロックの中にある。 -/
theorem NoBuddies.exists_coarse {F : Set Block} {k : Nat} {s : Int} (hno : NoBuddies F) (hal : ∀ b ∈ F, b.Aligned)
    (hs : (2 : Int) ^ k ∣ s) (hcov : ∀ x, (⟨s, k⟩ : Block).Has x → ∃ b ∈ F, b.Has x) :
    ∃ b ∈ F, k ≤ b.log ∧ b.Has s := by
  induction k generalizing s with
  | zero =>
      obtain ⟨b, hb, hbs⟩ := hcov s (Block.has_start _)
      exact ⟨b, hb, Nat.zero_le _, hbs⟩
  | succ k ih =>
      have hpos := two_pow_pos k
      have hs' : (2 : Int) ^ k ∣ s := (two_pow_dvd (Nat.le_succ k)).trans hs
      have hsub {t x : Int} (ht : t = s ∨ t = s + 2 ^ k) (hx : (⟨t, k⟩ : Block).Has x) : (⟨s, k + 1⟩ : Block).Has x := by
        simp only [Block.Has, Block.stop, pow_succ] at hx ⊢
        omega
      obtain ⟨b, hb, hbk, hbs⟩ := ih hs' fun x hx => hcov x (hsub (Or.inl rfl) hx)
      obtain ⟨c, hc, hck, hcs⟩ := ih (Int.dvd_add hs' (dvd_refl _)) fun x hx => hcov x (hsub (Or.inr rfl) hx)
      by_cases hbk' : b.log = k
      · have hbe := (hal b hb).eq_of_log (c := ⟨s, k⟩) hs' hbk' hbs (Block.has_start _)
        by_cases hck' : c.log = k
        · have hce := (hal c hc).eq_of_log (c := ⟨s + 2 ^ k, k⟩) (Int.dvd_add hs' (dvd_refl _)) hck' hcs (Block.has_start _)
          exact absurd (hce ▸ hc) (hno s k hs (hbe ▸ hb))
        · -- 後ろの半分を覆う大きなブロックは、全体を覆う。
          have hspan : (⟨s, k + 1⟩ : Block).Aligned := hs
          have hsc := hspan.nested (hal c hc) (by dsimp only; omega) (hsub (Or.inr rfl) (Block.has_start _)) hcs
          have hend := (Block.has_start ⟨s, k + 1⟩).2.trans_le hsc.2
          exact ⟨c, hc, by omega, hsc.1, hend⟩
      · exact ⟨b, hb, by omega, hbs⟩

namespace Tiling

variable {n : Int} {B B' C D : Set Block} {b c : Block} {s o : Int} {j k : Nat}

/-- 同じ所を覆うブロックの組で置き換える。 -/
theorem exchange (h : Tiling n B) (hC : ∀ c ∈ C, c ∈ B) (hB' : ∀ b, b ∈ B' ↔ (b ∈ B ∧ b ∉ C) ∨ b ∈ D)
    (hsame : ∀ x, (∃ c ∈ C, c.Has x) ↔ ∃ d ∈ D, d.Has x) (halign : ∀ d ∈ D, d.Aligned)
    (hdisj : ∀ d ∈ D, ∀ e ∈ D, ∀ x, d.Has x → e.Has x → d = e) : Tiling n B' := by
  refine ⟨?_, ?_, ?_, ?_⟩
  · intro b hb
    rcases (hB' b).mp hb with ⟨hb, _⟩ | hb
    · exact h.inside b hb
    · obtain ⟨c, hc, hxc⟩ := (hsame _).mpr ⟨b, hb, b.has_start⟩
      obtain ⟨d, hd, hxd⟩ := (hsame _).mpr ⟨b, hb, b.has_last⟩
      have h₁ := h.inside c (hC c hc)
      have h₂ := h.inside d (hC d hd)
      exact ⟨by have := hxc.1; omega, by have := hxd.2; omega⟩
  · intro b hb
    rcases (hB' b).mp hb with ⟨hb, _⟩ | hb
    · exact h.aligned b hb
    · exact halign b hb
  · intro x hx₁ hx₂
    obtain ⟨b, hb, hxb⟩ := h.cover x hx₁ hx₂
    by_cases hbC : b ∈ C
    · obtain ⟨d, hd, hxd⟩ := (hsame x).mp ⟨b, hbC, hxb⟩
      exact ⟨d, (hB' d).mpr (Or.inr hd), hxd⟩
    · exact ⟨b, (hB' b).mpr (Or.inl ⟨hb, hbC⟩), hxb⟩
  · -- 残したブロックと新しいブロックが重なれば、残したブロックは置き換えたブロックと重なる。
    have hmix {b d : Block} {x : Int} (hb : b ∈ B ∧ b ∉ C) (hd : d ∈ D) (hxb : b.Has x) (hxd : d.Has x) : False := by
      obtain ⟨c, hc, hxc⟩ := (hsame x).mpr ⟨d, hd, hxd⟩
      exact hb.2 (h.disjoint b hb.1 c (hC c hc) x hxb hxc ▸ hc)
    intro b hb c hc x hxb hxc
    rcases (hB' b).mp hb with hb | hb
    · rcases (hB' c).mp hc with hc | hc
      · exact h.disjoint b hb.1 c hc.1 x hxb hxc
      · exact (hmix hb hc hxb hxc).elim
    · rcases (hB' c).mp hc with hc | hc
      · exact (hmix hc hb hxc hxb).elim
      · exact hdisj b hb c hc x hxb hxc

theorem halves_has {x : Int} : (⟨s, k + 1⟩ : Block).Has x ↔ (⟨s, k⟩ : Block).Has x ∨ (⟨s + 2 ^ k, k⟩ : Block).Has x := by
  have := two_pow_pos k
  unfold Block.Has Block.stop
  dsimp only
  rw [pow_succ]
  omega

/-- ブロックを二つの半分に分ける。 -/
theorem split (h : Tiling n B) (hb : (⟨s, k + 1⟩ : Block) ∈ B)
    (hB' : ∀ b, b ∈ B' ↔ (b ∈ B ∧ b ≠ ⟨s, k + 1⟩) ∨ b = ⟨s, k⟩ ∨ b = ⟨s + 2 ^ k, k⟩) : Tiling n B' := by
  have hs : (2 : Int) ^ (k + 1) ∣ s := h.aligned _ hb
  have hs' : (2 : Int) ^ k ∣ s := (two_pow_dvd (Nat.le_succ k)).trans hs
  have hpos := two_pow_pos k
  refine h.exchange (C := {⟨s, k + 1⟩}) (D := {⟨s, k⟩, ⟨s + 2 ^ k, k⟩}) ?_ hB' ?_ ?_ ?_
  · rintro c rfl
    exact hb
  · intro x
    simp only [Set.mem_singleton_iff, exists_eq_left, halves_has, Set.mem_insert_iff, exists_eq_or_imp]
  · rintro d (rfl | rfl)
    · exact hs'
    · exact Int.dvd_add hs' (dvd_refl _)
  · rintro d (rfl | rfl) e (rfl | rfl) x hxd hxe
    · rfl
    · unfold Block.Has Block.stop at hxd hxe
      dsimp only at hxd hxe
      omega
    · unfold Block.Has Block.stop at hxd hxe
      dsimp only at hxd hxe
      omega
    · rfl

/-- 相手どうしをつなぎ合わせる。 -/
theorem merge (h : Tiling n B) (hs : (2 : Int) ^ (k + 1) ∣ s) (hlo : (⟨s, k⟩ : Block) ∈ B)
    (hhi : (⟨s + 2 ^ k, k⟩ : Block) ∈ B)
    (hB' : ∀ b, b ∈ B' ↔ (b ∈ B ∧ b ≠ ⟨s, k⟩ ∧ b ≠ ⟨s + 2 ^ k, k⟩) ∨ b = ⟨s, k + 1⟩) : Tiling n B' := by
  refine h.exchange (C := {⟨s, k⟩, ⟨s + 2 ^ k, k⟩}) (D := {⟨s, k + 1⟩}) ?_ ?_ ?_ ?_ ?_
  · rintro c (rfl | rfl)
    · exact hlo
    · exact hhi
  · intro b
    rw [hB' b]
    simp only [Set.mem_insert_iff, Set.mem_singleton_iff, not_or]
  · intro x
    simp only [Set.mem_singleton_iff, exists_eq_left, halves_has, Set.mem_insert_iff, exists_eq_or_imp]
  · rintro d rfl
    exact hs
  · rintro d rfl e rfl x _ _
    rfl

/-- 終わりにブロックを加える。 -/
theorem extend (h : Tiling n B) (hn : 0 ≤ n) (ha : (2 : Int) ^ k ∣ n)
    (hB' : ∀ b, b ∈ B' ↔ b ∈ B ∨ b = ⟨n, k⟩) : Tiling (n + 2 ^ k) B' := by
  have hpos := two_pow_pos k
  have hmix {b : Block} {x : Int} (hb : b ∈ B) (hxb : b.Has x) (hx : (⟨n, k⟩ : Block).Has x) : False := by
    have h₁ := (h.inside b hb).2
    have h₂ := hxb.2
    have h₃ := hx.1
    dsimp only at h₃
    omega
  refine ⟨?_, ?_, ?_, ?_⟩
  · intro b hb
    rcases (hB' b).mp hb with hb | rfl
    · obtain ⟨h₁, h₂⟩ := h.inside b hb
      exact ⟨h₁, by omega⟩
    · exact ⟨hn, Int.le_refl _⟩
  · intro b hb
    rcases (hB' b).mp hb with hb | rfl
    · exact h.aligned b hb
    · exact ha
  · intro x hx₁ hx₂
    by_cases hx : x < n
    · obtain ⟨b, hb, hxb⟩ := h.cover x hx₁ hx
      exact ⟨b, (hB' b).mpr (Or.inl hb), hxb⟩
    · exact ⟨⟨n, k⟩, (hB' _).mpr (Or.inr rfl), Int.not_lt.mp hx, hx₂⟩
  · intro b hb c hc x hxb hxc
    rcases (hB' b).mp hb with hb | rfl
    · rcases (hB' c).mp hc with hc | rfl
      · exact h.disjoint b hb c hc x hxb hxc
      · exact (hmix hb hxb hxc).elim
    · rcases (hB' c).mp hc with hc | rfl
      · exact (hmix hc hxc hxb).elim
      · rfl

/-! ## 相手 -/

/-- `s` と相手を合わせたブロックの先頭。 -/
def lower (s : Int) (k : Nat) : Int := if s / 2 ^ k % 2 = 1 then s - 2 ^ k else s

/-- 相手の先頭。 -/
def sibling (s : Int) (k : Nat) : Int := if s / 2 ^ k % 2 = 1 then s - 2 ^ k else s + 2 ^ k

theorem lower_dvd (h : (2 : Int) ^ k ∣ s) : (2 : Int) ^ (k + 1) ∣ lower s k := by
  obtain ⟨u, rfl⟩ := h
  have hpos := two_pow_pos k
  unfold lower
  rw [Int.mul_ediv_cancel_left u (by omega), pow_succ]
  split
  · obtain ⟨v, hv⟩ : ∃ v, u = 2 * v + 1 := ⟨u / 2, by omega⟩
    exact ⟨v, by rw [hv]; ring⟩
  · obtain ⟨v, hv⟩ : ∃ v, u = 2 * v := ⟨u / 2, by omega⟩
    exact ⟨v, by rw [hv]; ring⟩

theorem lower_cases (s : Int) (k : Nat) : (lower s k = s ∧ sibling s k = s + 2 ^ k) ∨
    (sibling s k = lower s k ∧ s = lower s k + 2 ^ k) := by
  unfold lower sibling
  split
  · right
    omega
  · left
    omega

theorem sibling_dvd (h : (2 : Int) ^ k ∣ s) : (2 : Int) ^ k ∣ sibling s k := by
  unfold sibling
  split
  · exact Int.dvd_sub h (dvd_refl _)
  · exact Int.dvd_add h (dvd_refl _)

theorem sibling_of_dvd (h : (2 : Int) ^ (k + 1) ∣ s) : sibling s k = s + 2 ^ k ∧ sibling (s + 2 ^ k) k = s := by
  obtain ⟨u, rfl⟩ := h
  have hpos := two_pow_pos k
  have h₁ : (2 : Int) ^ (k + 1) * u = 2 ^ k * (2 * u) := by ring
  have h₂ : (2 : Int) ^ k * (2 * u) + 2 ^ k = 2 ^ k * (2 * u + 1) := by ring
  unfold sibling
  rw [h₁, h₂, Int.mul_ediv_cancel_left _ (by omega), Int.mul_ediv_cancel_left _ (by omega), if_neg (by omega),
    if_pos (by omega)]
  omega

theorem lower_has (s : Int) (k : Nat) : (⟨lower s k, k + 1⟩ : Block).Has s ∧ (⟨lower s k, k + 1⟩ : Block).Has (sibling s k) := by
  have hpos := two_pow_pos k
  rw [halves_has, halves_has]
  unfold Block.Has Block.stop
  dsimp only
  rcases lower_cases s k with ⟨h₁, h₂⟩ | ⟨h₁, h₂⟩
  · omega
  · omega

/-- 相手の位置からは、同じ大きさか、より小さいブロックが始まる。 -/
theorem sibling_start (h : Tiling n B) (hb : (⟨s, k⟩ : Block) ∈ B) (h₀ : 0 ≤ sibling s k) (hn : sibling s k < n) :
    ∃ j ≤ k, (⟨sibling s k, j⟩ : Block) ∈ B := by
  have hs : (2 : Int) ^ k ∣ s := h.aligned _ hb
  obtain ⟨c, hc, hoc⟩ := h.cover _ h₀ hn
  have hca := h.aligned c hc
  by_cases hle : c.log ≤ k
  · have hstart := hca.start_eq ((two_pow_dvd hle).trans (sibling_dvd hs)) hoc
    exact ⟨c.log, hle, by rw [← hstart]; exact hc⟩
  · -- より大きいブロックは、相手と合わせたブロックを含み、`s` とも重なる。
    obtain ⟨hsl, hol⟩ := lower_has s k
    have hla : (⟨lower s k, k + 1⟩ : Block).Aligned := lower_dvd hs
    obtain ⟨h₁, h₂⟩ := hla.nested hca (Nat.lt_of_not_le hle) hol hoc
    have hcs : c.Has s := ⟨h₁.trans hsl.1, lt_of_lt_of_le hsl.2 h₂⟩
    have heq := h.disjoint c hc _ hb s hcs (Block.has_start ⟨s, k⟩)
    rw [heq] at hle
    exact absurd (Nat.le_refl k) hle

/-! ## 相手どうしの残らない分割 -/

/-- 大きすぎるブロックと重ならない範囲は、それ自身がブロックである。 -/
theorem mem_of_coarse (h : Tiling n B) (hno : NoBuddies B) (halign : (2 : Int) ^ k ∣ s) (h₀ : 0 ≤ s)
    (hn : s + 2 ^ k ≤ n) (hle : ∀ b ∈ B, ∀ x, (⟨s, k⟩ : Block).Has x → b.Has x → b.log ≤ k) : (⟨s, k⟩ : Block) ∈ B := by
  have hpos := two_pow_pos k
  obtain ⟨b, hb, hsb⟩ := h.cover s h₀ (by omega)
  have hlog := hle b hb s (Block.has_start ⟨s, k⟩) hsb
  have hself {c : Block} (hc : c ∈ B) {x : Int} (hx : (⟨s, k⟩ : Block).Has x) (hxc : c.Has x) (hk : c.log = k) :
      (⟨s, k⟩ : Block) ∈ B := by
    have heq := (h.aligned c hc).eq_of_log (c := ⟨s, k⟩) halign hk hxc hx
    rw [← heq]
    exact hc
  induction k generalizing s b with
  | zero => exact hself hb (Block.has_start ⟨s, 0⟩) hsb (Nat.le_zero.mp hlog)
  | succ k ih =>
      by_cases hbk : b.log = k + 1
      · exact hself hb (Block.has_start ⟨s, k + 1⟩) hsb hbk
      · have hpos' := two_pow_pos k
        rw [pow_succ] at hn
        have hle' : ∀ c ∈ B, ∀ x, (⟨s, k + 1⟩ : Block).Has x → c.Has x → c.log ≤ k := by
          intro c hc x hx hxc
          have hck := hle c hc x hx hxc
          by_contra hgt
          have hck : c.log = k + 1 := by omega
          have heq := (h.aligned c hc).eq_of_log (c := ⟨s, k + 1⟩) halign hck hxc hx
          have hcb := h.disjoint c hc b hb s (by rw [heq]; exact Block.has_start _) hsb
          exact hbk (by rw [← hcb]; exact hck)
        have halign' : (2 : Int) ^ k ∣ s := (two_pow_dvd (Nat.le_succ k)).trans halign
        have half {t : Int} (ht : (2 : Int) ^ k ∣ t) (ht₀ : 0 ≤ t) (htn : t + 2 ^ k ≤ n)
            (hsub : ∀ x, (⟨t, k⟩ : Block).Has x → (⟨s, k + 1⟩ : Block).Has x) : (⟨t, k⟩ : Block) ∈ B := by
          have hle'' : ∀ c ∈ B, ∀ x, (⟨t, k⟩ : Block).Has x → c.Has x → c.log ≤ k :=
            fun c hc x hx hxc => hle' c hc x (hsub x hx) hxc
          obtain ⟨c, hc, htc⟩ := h.cover t ht₀ (by omega)
          refine ih ht ht₀ htn hle'' hpos' c hc htc (hle'' c hc t (Block.has_start ⟨t, k⟩) htc) ?_
          intro d hd x hx hxd hdk
          have heq := (h.aligned d hd).eq_of_log (c := ⟨t, k⟩) ht hdk hxd hx
          rw [← heq]
          exact hd
        have hlo := half halign' h₀ (by omega) fun x hx => halves_has.mpr (Or.inl hx)
        have hhi := half (Int.dvd_add halign' (dvd_refl _)) (by omega) (by omega) fun x hx => halves_has.mpr (Or.inr hx)
        exact absurd hhi (hno s k halign hlo)

/-- 分割のブロックは、`[0, n)` に収まり、相手と合わせると収まらないブロックである。 -/
theorem mem_iff (h : Tiling n B) (hno : NoBuddies B) : (⟨s, k⟩ : Block) ∈ B ↔
    (2 : Int) ^ k ∣ s ∧ 0 ≤ s ∧ s + 2 ^ k ≤ n ∧ n < lower s k + 2 ^ (k + 1) := by
  obtain ⟨hsl, hol⟩ := lower_has s k
  constructor
  · intro hb
    have hs : (2 : Int) ^ k ∣ s := h.aligned _ hb
    obtain ⟨h₀, hn⟩ : 0 ≤ s ∧ s + 2 ^ k ≤ n := h.inside _ hb
    refine ⟨hs, h₀, hn, ?_⟩
    by_contra hle
    have hla : (⟨lower s k, k + 1⟩ : Block).Aligned := lower_dvd hs
    have hl₀ : 0 ≤ lower s k := by
      unfold lower
      split
      · by_contra hneg
        rename_i hodd
        rw [Int.ediv_eq_zero_of_lt h₀ (by omega)] at hodd
        cases hodd
      · exact h₀
    have hmem : (⟨lower s k, k + 1⟩ : Block) ∈ B := by
      refine h.mem_of_coarse hno hla hl₀ (by omega) ?_
      intro c hc x hx hxc
      by_contra hgt
      have hgt := Nat.lt_of_not_le hgt
      obtain ⟨h₁, h₂⟩ := hla.nested (h.aligned c hc) (Nat.le_of_lt hgt) hx hxc
      have hcs : c.Has s := ⟨h₁.trans hsl.1, lt_of_lt_of_le hsl.2 h₂⟩
      have heq := h.disjoint c hc _ hb s hcs (Block.has_start ⟨s, k⟩)
      rw [heq] at hgt
      dsimp only at hgt
      omega
    have heq := h.disjoint _ hmem _ hb s hsl (Block.has_start ⟨s, k⟩)
    have := congrArg Block.log heq
    dsimp only at this
    omega
  · rintro ⟨hs, h₀, hn, hgt⟩
    refine h.mem_of_coarse hno hs h₀ hn ?_
    intro c hc x hx hxc
    by_contra hlt
    have hsa : (⟨s, k⟩ : Block).Aligned := hs
    obtain ⟨h₁, h₂⟩ := hsa.nested (h.aligned c hc) (Nat.le_of_lt (Nat.lt_of_not_le hlt)) hx hxc
    have hcs : c.Has s := ⟨h₁, lt_of_lt_of_le (Block.has_start ⟨s, k⟩).2 h₂⟩
    have hla : (⟨lower s k, k + 1⟩ : Block).Aligned := lower_dvd hs
    obtain ⟨_, h₄⟩ := hla.nested (h.aligned c hc) (Nat.lt_of_not_le hlt) hsl hcs
    have h₅ := (h.inside c hc).2
    unfold Block.stop at h₄ h₅
    dsimp only at h₄
    omega

/-- 相手どうしの残らない分割は一つしかない。 -/
theorem unique (h : Tiling n B) (hno : NoBuddies B) (h' : Tiling n B') (hno' : NoBuddies B') : B = B' := by
  ext b
  cases b with
  | mk s k => rw [h.mem_iff hno, h'.mem_iff hno']

end Tiling

end Eleos
