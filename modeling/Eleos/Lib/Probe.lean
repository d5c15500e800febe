import Eleos.Lib.Ring
import Mathlib.Data.Finset.Card
import Mathlib.Data.Finset.Dedup

/-!
# 環を順に調べる表

大きさ `n` の環の上で、鍵 `k` を `home k` から順に調べる表。空きに至る前に鍵が見つかるという条件を、加える操作が保つ。
-/

namespace Eleos.Probe

variable {κ : Type} {n a d e i j : Nat} {home : κ → Nat} {occ : Nat → Option κ} {k : κ}

/-- `a` から数えて `d` 番目に調べる位置。 -/
def slot (n a d : Nat) : Nat := (a + d) % n

/-- `a` から `d` 個の位置には、`k` でない鍵がある。 -/
def Passed (n : Nat) (occ : Nat → Option κ) (k : κ) (a d : Nat) : Prop :=
  ∀ e < d, ∃ k', occ (slot n a e) = some k' ∧ k' ≠ k

/-- 位置 `j` で探索が止まる。 -/
def Stops (occ : Nat → Option κ) (k : κ) (j : Nat) : Prop := occ j = none ∨ occ j = some k

/-- どの鍵も、調べる順に見て空きにも同じ鍵にも至る前に見つかる。 -/
def Reach (n : Nat) (home : κ → Nat) (occ : Nat → Option κ) : Prop :=
  ∀ j < n, ∀ k, occ j = some k → ∃ d < n, slot n (home k) d = j ∧ Passed n occ k (home k) d

/-! ## 環の位置 -/

theorem slot_lt (hn : 0 < n) : slot n a d < n := Nat.mod_lt _ hn

theorem slot_succ : slot n a (d + 1) = (slot n a d + 1) % n := by
  unfold slot
  rw [Nat.mod_add_mod, Nat.add_assoc]

theorem slot_zero (ha : a < n) : slot n a 0 = a := Nat.mod_eq_of_lt ha

theorem slot_turn (ha : a < n) : slot n a n = a := by
  unfold slot
  rw [Nat.add_mod_right, Nat.mod_eq_of_lt ha]

theorem slot_inj (hd : d < n) (he : e < n) (h : slot n a d = slot n a e) : d = e := by
  rcases Nat.lt_trichotomy d e with hlt | heq | hlt
  · exact absurd h (Ring.index_ne (by omega) (by omega))
  · exact heq
  · exact absurd h.symm (Ring.index_ne (by omega) (by omega))

theorem slot_surj (hj : j < n) : ∃ d < n, slot n a d = j := by
  have hn : 0 < n := Nat.lt_of_le_of_lt (Nat.zero_le j) hj
  have ha := Nat.mod_lt a hn
  refine ⟨(j + (n - a % n)) % n, Nat.mod_lt _ hn, ?_⟩
  unfold slot
  rw [Nat.add_mod_mod, ← Nat.mod_add_mod, show a % n + (j + (n - a % n)) = j + n by omega, Nat.add_mod_right,
    Nat.mod_eq_of_lt hj]

/-! ## 探索の止まる位置 -/

theorem Passed.succ {k' : κ} (h : Passed n occ k a d) (hk : occ (slot n a d) = some k') (hne : k' ≠ k) :
    Passed n occ k a (d + 1) := by
  intro e he
  rcases Nat.lt_succ_iff_lt_or_eq.mp he with hlt | rfl
  · exact h e hlt
  · exact ⟨k', hk, hne⟩

/-- 探索は、一周するまでに止まるか、一周の間ほかの鍵だけに出会う。 -/
theorem stops_or_passed (n : Nat) (occ : Nat → Option κ) (k : κ) (a m : Nat) :
    (∃ d < m, Passed n occ k a d ∧ Stops occ k (slot n a d)) ∨ Passed n occ k a m := by
  induction m with
  | zero => exact Or.inr fun e he => absurd he (Nat.not_lt_zero e)
  | succ m ih =>
      rcases ih with ⟨d, hd, h⟩ | hp
      · exact Or.inl ⟨d, Nat.lt_succ_of_lt hd, h⟩
      · cases hm : occ (slot n a m) with
        | none => exact Or.inl ⟨m, Nat.lt_succ_self m, hp, Or.inl hm⟩
        | some k' =>
            by_cases hk : k' = k
            · exact Or.inl ⟨m, Nat.lt_succ_self m, hp, Or.inr (hk ▸ hm)⟩
            · exact Or.inr (hp.succ hm hk)

theorem passed_turn_iff : Passed n occ k a n ↔ ∀ j < n, ∃ k', occ j = some k' ∧ k' ≠ k := by
  constructor
  · intro h j hj
    obtain ⟨d, hd, rfl⟩ := slot_surj (a := a) hj
    exact h d hd
  · exact fun h e he => h _ (slot_lt (Nat.lt_of_le_of_lt (Nat.zero_le e) he))

/-- 空きのある位置は、一周の間に必ず調べられる。 -/
theorem stops_of_empty (hj : j < n) (he : occ j = none) (k : κ) (a : Nat) :
    ∃ d < n, Passed n occ k a d ∧ Stops occ k (slot n a d) := by
  rcases stops_or_passed n occ k a n with h | h
  · exact h
  · obtain ⟨k', hk', -⟩ := passed_turn_iff.mp h j hj
    rw [he] at hk'
    cases hk'

/-! ## 鍵の位置 -/

theorem Reach.unique (h : Reach n home occ) (hi : i < n) (hj : j < n) (hik : occ i = some k) (hjk : occ j = some k) :
    i = j := by
  obtain ⟨d, hd, rfl, hpd⟩ := h i hi k hik
  obtain ⟨e, he, rfl, hpe⟩ := h j hj k hjk
  rcases Nat.lt_trichotomy d e with hlt | rfl | hlt
  · obtain ⟨k', hk', hne⟩ := hpe d hlt
    rw [hik] at hk'
    exact absurd (Option.some.inj hk').symm hne
  · rfl
  · obtain ⟨k', hk', hne⟩ := hpd e hlt
    rw [hjk] at hk'
    exact absurd (Option.some.inj hk').symm hne

/-- 探索が空きで止まれば、その鍵はどこにもない。 -/
theorem Reach.absent (h : Reach n home occ) (hp : Passed n occ k (home k) d)
    (hs : occ (slot n (home k) d) = none) (hj : j < n) : occ j ≠ some k := by
  intro hjk
  obtain ⟨e, he, rfl, hpe⟩ := h j hj k hjk
  rcases Nat.lt_trichotomy d e with hlt | rfl | hlt
  · obtain ⟨k', hk', -⟩ := hpe d hlt
    rw [hs] at hk'
    cases hk'
  · rw [hs] at hjk
    cases hjk
  · obtain ⟨k', hk', hne⟩ := hp e hlt
    rw [hjk] at hk'
    exact absurd (Option.some.inj hk').symm hne

theorem Passed.update {k' : κ} (h : Passed n occ k a d) (hk : k' ≠ k) :
    Passed n (Function.update occ j (some k')) k a d := by
  intro e he
  obtain ⟨k'', hk'', hne⟩ := h e he
  by_cases hj : slot n a e = j
  · exact ⟨k', by rw [hj, Function.update_self], hk⟩
  · exact ⟨k'', by rw [Function.update_of_ne hj]; exact hk'', hne⟩

/-- 探索が止まった位置に鍵を置いても、条件は保たれる。 -/
theorem Reach.insert (h : Reach n home occ) (hd : d < n) (hp : Passed n occ k (home k) d)
    (hs : Stops occ k (slot n (home k) d)) : Reach n home (Function.update occ (slot n (home k) d) (some k)) := by
  have hself {e : Nat} (he : Passed n occ k (home k) e) (hle : e ≤ d) :
      Passed n (Function.update occ (slot n (home k) d) (some k)) k (home k) e := by
    intro c hc
    obtain ⟨k', hk', hne⟩ := he c hc
    refine ⟨k', ?_, hne⟩
    rw [Function.update_of_ne (fun hcd => absurd (slot_inj (by omega) hd hcd) (by omega))]
    exact hk'
  intro j hj k' hk'
  by_cases hjd : j = slot n (home k) d
  · rw [hjd, Function.update_self] at hk'
    cases hk'
    exact ⟨d, hd, hjd.symm, hself hp (Nat.le_refl d)⟩
  · rw [Function.update_of_ne hjd] at hk'
    obtain ⟨e, he, hej, hpe⟩ := h j hj k' hk'
    by_cases hkk : k = k'
    · subst hkk
      -- 同じ鍵がほかの位置にあれば、探索はそこで止まっている。
      rcases Nat.lt_trichotomy e d with hlt | rfl | hlt
      · obtain ⟨k'', hk'', hne⟩ := hp e hlt
        rw [hej, hk'] at hk''
        exact absurd (Option.some.inj hk'').symm hne
      · exact absurd hej.symm hjd
      · obtain ⟨k'', hk'', hne⟩ := hpe d hlt
        rcases hs with hs | hs
        · rw [hs] at hk''
          cases hk''
        · rw [hs] at hk''
          exact absurd (Option.some.inj hk'').symm hne
    · exact ⟨e, he, hej, hpe.update hkk⟩

/-- 探索が止まった位置に鍵を置くと、表の鍵にその鍵だけが加わる。 -/
theorem exists_update_iff {k' : κ} (hj : j < n) (hs : Stops occ k j) :
    (∃ i < n, Function.update occ j (some k) i = some k') ↔ (∃ i < n, occ i = some k') ∨ k' = k := by
  constructor
  · rintro ⟨i, hi, hik⟩
    by_cases hij : i = j
    · rw [hij, Function.update_self] at hik
      exact Or.inr (Option.some.inj hik).symm
    · rw [Function.update_of_ne hij] at hik
      exact Or.inl ⟨i, hi, hik⟩
  · rintro (⟨i, hi, hik⟩ | rfl)
    · by_cases hij : i = j
      · subst hij
        rcases hs with hs | hs
        · rw [hs] at hik
          cases hik
        · rw [hs] at hik
          exact ⟨i, hi, by rw [Function.update_self]; exact hik⟩
      · exact ⟨i, hi, by rw [Function.update_of_ne hij]; exact hik⟩
    · exact ⟨j, hj, Function.update_self ..⟩

/-! ## 鍵の個数 -/

/-- 鍵のある位置の個数は、異なる鍵の個数である。 -/
theorem Reach.card_eq [DecidableEq κ] {ks : List κ} (h : Reach n home occ)
    (hks : ∀ k, (∃ j < n, occ j = some k) ↔ k ∈ ks) : ((Finset.range n).filter fun j => occ j ≠ none).card = ks.dedup.length := by
  have hget {j : Nat} (hj : j ∈ (Finset.range n).filter fun j => occ j ≠ none) : (occ j).isSome :=
    Option.isSome_iff_ne_none.mpr (Finset.mem_filter.mp hj).2
  have hmem {j : Nat} (hj : j ∈ (Finset.range n).filter fun j => occ j ≠ none) : j < n :=
    Finset.mem_range.mp (Finset.mem_filter.mp hj).1
  rw [← List.card_toFinset]
  refine Finset.card_bij (fun j hj => (occ j).get (hget hj)) ?_ ?_ ?_
  · intro j hj
    rw [List.mem_toFinset, ← hks]
    exact ⟨j, hmem hj, (Option.some_get _).symm⟩
  · intro i hi j hj heq
    have hik := (Option.some_get (hget hi)).symm
    have hjk := (Option.some_get (hget hj)).symm
    rw [← heq] at hjk
    exact h.unique (hmem hi) (hmem hj) hik hjk
  · intro k hk
    obtain ⟨j, hj, hjk⟩ := (hks k).mpr (List.mem_toFinset.mp hk)
    have hne : occ j ≠ none := by
      rw [hjk]
      exact Option.some_ne_none k
    refine ⟨j, Finset.mem_filter.mpr ⟨Finset.mem_range.mpr hj, hne⟩, ?_⟩
    exact Option.some.inj ((Option.some_get _).trans hjk)

theorem Reach.length_le [DecidableEq κ] {ks : List κ} (h : Reach n home occ)
    (hks : ∀ k, (∃ j < n, occ j = some k) ↔ k ∈ ks) : ks.dedup.length ≤ n := by
  rw [← h.card_eq hks]
  exact (Finset.card_filter_le _ _).trans_eq (Finset.card_range n)

/-- 表が一杯なのは、異なる鍵が `n` 個あるとき、かつそのときに限る。 -/
theorem Reach.full_iff [DecidableEq κ] {ks : List κ} (h : Reach n home occ)
    (hks : ∀ k, (∃ j < n, occ j = some k) ↔ k ∈ ks) : (∀ j < n, occ j ≠ none) ↔ ks.dedup.length = n := by
  rw [← h.card_eq hks]
  constructor
  · intro hall
    rw [Finset.filter_true_of_mem fun j hj => hall j (Finset.mem_range.mp hj), Finset.card_range]
  · intro heq j hj
    have hsub := Finset.filter_subset (fun j => occ j ≠ none) (Finset.range n)
    have hfilter := Finset.eq_of_subset_of_card_le hsub (by rw [heq, Finset.card_range])
    have hmem := Finset.mem_range.mpr hj
    rw [← hfilter] at hmem
    exact (Finset.mem_filter.mp hmem).2

end Eleos.Probe
