import Mathlib.Logic.Function.Basic

/-!
# 書き戻し方式のキャッシュ

鍵 `κ` ごとの内容を、いくつかの枠 `σ` に置いて使う記憶の模型。枠に置いた内容は `slot` に、枠から外した内容の控えは `vault` に
ある。枠に変更の印 `dirty` がなければ、控えは枠の内容を失わない。`M` は、最後に書き込まれた値の表である。
-/

namespace Eleos

@[ext] structure Writeback (κ σ ι β : Type) where
  -- 鍵の置かれている枠。
  home : κ → Option σ
  slot : σ → ι → β
  dirty : σ → Bool
  vault : κ → Option (ι → β)

namespace Writeback

variable {κ σ ι β : Type} {w : Writeback κ σ ι β}
  {M : κ → ι → Option β} {p q : κ} {i j : σ} {o : ι} {v : β} {c : ι → β}

/-! ## 操作 -/

/-- 枠 `i` の内容を、鍵 `p` の控えにする。 -/
def flush [DecidableEq κ] [DecidableEq σ] (w : Writeback κ σ ι β) (p : κ) (i : σ) : Writeback κ σ ι β :=
  { w with dirty := Function.update w.dirty i false, vault := Function.update w.vault p (some (w.slot i)) }

/-- 鍵 `p` を枠から外す。 -/
def drop [DecidableEq κ] (w : Writeback κ σ ι β) (p : κ) : Writeback κ σ ι β := { w with home := Function.update w.home p none }

/-- 枠 `i` に内容 `c` を入れる。 -/
def fill [DecidableEq σ] (w : Writeback κ σ ι β) (i : σ) (c : ι → β) : Writeback κ σ ι β :=
  { w with slot := Function.update w.slot i c }

/-- 鍵 `p` を枠 `i` に置く。 -/
def place [DecidableEq κ] (w : Writeback κ σ ι β) (p : κ) (i : σ) : Writeback κ σ ι β :=
  { w with home := Function.update w.home p (some i) }

/-- 枠 `i` に変更の印を付ける。 -/
def mark [DecidableEq σ] (w : Writeback κ σ ι β) (i : σ) : Writeback κ σ ι β := { w with dirty := Function.update w.dirty i true }

/-- 枠 `i` の `o` 番目に `v` を書く。 -/
def store [DecidableEq σ] [DecidableEq ι] (w : Writeback κ σ ι β) (i : σ) (o : ι) (v : β) : Writeback κ σ ι β :=
  w.fill i (Function.update (w.slot i) o v)

/-! ## 不変条件 -/

/-- 鍵 `p` の内容は、枠だけにあるのではない。 -/
def Clean (w : Writeback κ σ ι β) (p : κ) : Prop := ∀ i, w.home p = some i → w.dirty i = false

/-- 書き込まれた値は、枠に置かれていれば枠にあり、変更の印がなければ控えにもある。 -/
structure Holds (M : κ → ι → Option β) (w : Writeback κ σ ι β) : Prop where
  inj : ∀ {p q i}, w.home p = some i → w.home q = some i → p = q
  resident : ∀ {p i o v}, w.home p = some i → M p o = some v → w.slot i o = v
  backed : ∀ {p o v}, w.Clean p → M p o = some v → ∃ c, w.vault p = some c ∧ c o = v

/-- どの鍵も置かれていない枠。 -/
def Vacant (w : Writeback κ σ ι β) (i : σ) : Prop := ∀ q, w.home q ≠ some i

/-- 空いている枠 `i` に、鍵 `p` の控えの内容が入っている。 -/
def Ready (w : Writeback κ σ ι β) (p : κ) (i : σ) : Prop := ∀ c, w.vault p = some c → w.slot i = c

theorem Clean.of_absent (h : w.home p = none) : w.Clean p := by
  intro i hi
  cases h.symm.trans hi

/-! ## 書き出し -/

theorem Holds.flush [DecidableEq κ] [DecidableEq σ] (h : w.Holds M) (hp : w.home p = some i) : (w.flush p i).Holds M := by
  refine ⟨h.inj, h.resident, ?_⟩
  intro q o v hq hv
  by_cases hqp : q = p
  · subst hqp
    exact ⟨_, Function.update_self .., h.resident hp hv⟩
  · have hc : w.Clean q := by
      intro j hj
      have hne : j ≠ i := by
        rintro rfl
        exact hqp (h.inj hj hp)
      simpa [Writeback.flush, hne] using hq j hj
    obtain ⟨c, hc, hco⟩ := h.backed hc hv
    exact ⟨c, (Function.update_of_ne hqp ..).trans hc, hco⟩

/-- 控えの内容が枠に入っているという関係は、ほかの鍵の書き出しで変わらない。 -/
theorem Ready.flush [DecidableEq κ] [DecidableEq σ] (h : w.Ready q j) (hqp : q ≠ p) : (w.flush p i).Ready q j := by
  intro c hc
  apply h c
  simpa [Writeback.flush, hqp] using hc

/-! ## 出し入れ -/

theorem Holds.drop [DecidableEq κ] (h : w.Holds M) (hp : w.Clean p) : (w.drop p).Holds M := by
  have hmem {q : κ} {j : σ} (hq : (w.drop p).home q = some j) : q ≠ p ∧ w.home q = some j := by
    by_cases hqp : q = p
    · subst hqp
      simp [Writeback.drop] at hq
    · exact ⟨hqp, by simpa [Writeback.drop, hqp] using hq⟩
  refine ⟨fun hq hq' => h.inj (hmem hq).2 (hmem hq').2, fun hq => h.resident (hmem hq).2, ?_⟩
  intro q o v hq hv
  by_cases hqp : q = p
  · subst hqp
    exact h.backed hp hv
  · apply h.backed _ hv
    intro j hj
    apply hq j
    simpa [Writeback.drop, hqp] using hj

theorem Holds.fill [DecidableEq σ] (h : w.Holds M) (hi : w.Vacant i) : (w.fill i c).Holds M := by
  refine ⟨h.inj, ?_, h.backed⟩
  intro q j o v hq hv
  have hne : j ≠ i := by
    rintro rfl
    exact hi q hq
  simpa [Writeback.fill, hne] using h.resident hq hv

theorem Ready.fill_self [DecidableEq σ] (h : ∀ d, w.vault p = some d → c = d) : (w.fill i c).Ready p i := by
  intro d hd
  simpa [Writeback.fill] using h d hd

theorem Ready.fill_ne [DecidableEq σ] (h : w.Ready q j) (hne : j ≠ i) : (w.fill i c).Ready q j := by
  intro d hd
  simpa [Writeback.fill, hne] using h d hd

/-- 控えの内容を入れた空きの枠に、置かれていない鍵を置く。 -/
theorem Holds.place [DecidableEq κ] (h : w.Holds M) (hp : w.home p = none) (hi : w.Vacant i) (hr : w.Ready p i) :
    (w.place p i).Holds M := by
  have hmem {q : κ} {j : σ} (hq : (w.place p i).home q = some j) : q = p ∧ j = i ∨ q ≠ p ∧ w.home q = some j := by
    by_cases hqp : q = p
    · subst hqp
      exact Or.inl ⟨rfl, by simpa [Writeback.place, eq_comm] using hq⟩
    · exact Or.inr ⟨hqp, by simpa [Writeback.place, hqp] using hq⟩
  refine ⟨?_, ?_, ?_⟩
  · intro q q' j hq hq'
    rcases hmem hq with ⟨rfl, rfl⟩ | ⟨_, hq₁⟩
    · rcases hmem hq' with ⟨rfl, _⟩ | ⟨_, hq₂⟩
      · rfl
      · exact absurd hq₂ (hi q')
    · rcases hmem hq' with ⟨rfl, rfl⟩ | ⟨_, hq₂⟩
      · exact absurd hq₁ (hi q)
      · exact h.inj hq₁ hq₂
  · intro q j o v hq hv
    rcases hmem hq with ⟨rfl, rfl⟩ | ⟨_, hq⟩
    · obtain ⟨c, hc, hco⟩ := h.backed (.of_absent hp) hv
      exact (congrFun (hr c hc) o).trans hco
    · exact h.resident hq hv
  · intro q o v hq hv
    apply h.backed _ hv
    intro j hj
    have hqp : q ≠ p := by
      rintro rfl
      cases hp.symm.trans hj
    apply hq j
    simpa [Writeback.place, hqp] using hj

/-! ## 読み書き -/

theorem Holds.mark [DecidableEq σ] (h : w.Holds M) : (w.mark i).Holds M := by
  refine ⟨h.inj, h.resident, ?_⟩
  intro q o v hq hv
  apply h.backed _ hv
  intro j hj
  have hd := hq j hj
  by_cases hne : j = i
  · subst hne
    simp [Writeback.mark] at hd
  · simpa [Writeback.mark, hne] using hd

/-- 印を付けた枠への書き込み。 -/
theorem Holds.store [DecidableEq κ] [DecidableEq σ] [DecidableEq ι] (h : w.Holds M) (hp : w.home p = some i) (hd : w.dirty i = true) :
    (w.store i o v).Holds (Function.update M p (Function.update (M p) o (some v))) := by
  refine ⟨h.inj, ?_, ?_⟩
  · intro q j o' v' hq hv
    by_cases hqp : q = p
    · subst hqp
      cases hp.symm.trans hq
      by_cases ho : o' = o
      · subst ho
        simpa [Writeback.store, Writeback.fill] using hv
      · simp only [Function.update_self, ne_eq, ho, not_false_eq_true, Function.update_of_ne] at hv
        simpa [Writeback.store, Writeback.fill, ho] using h.resident hq hv
    · have hne : j ≠ i := by
        rintro rfl
        exact hqp (h.inj hq hp)
      simp only [ne_eq, hqp, not_false_eq_true, Function.update_of_ne] at hv
      simpa [Writeback.store, Writeback.fill, hne] using h.resident hq hv
  · intro q o' v' hq hv
    have hqp : q ≠ p := by
      rintro rfl
      cases hd.symm.trans (hq i hp)
    simp only [ne_eq, hqp, not_false_eq_true, Function.update_of_ne] at hv
    exact h.backed hq hv

end Writeback

end Eleos
