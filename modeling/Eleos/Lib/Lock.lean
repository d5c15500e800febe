import Mathlib.Logic.Function.Basic
import Mathlib.Logic.Relation

/-!
# スピンロックで区切られた処理

錠 `ι` のそれぞれが記憶 `σ` を一つずつ守る。処理は錠を取り、守られた記憶を一命令ずつ読み書きし、錠を放す。
どの交互実行も、錠を放した順に処理を一つずつ行う実行に対応する。
-/

namespace Eleos

/-- 処理 `Op` の錠、初めの局所の状態、一命令。命令は、次の局所の状態と記憶か、処理の結果を返す。 -/
structure Guarded (ι σ Λ ρ Op : Type) where
  lock : Op → ι
  start : Op → Λ
  step : Λ → σ → (Λ × σ) ⊕ ρ

namespace Guarded

variable {ι σ Λ ρ Op : Type} {P : Guarded ι σ Λ ρ Op} {l l' : Λ} {s s' s'' : σ} {r : ρ} {op : Op} {i : ι}

/-! ## 一つの処理 -/

/-- 局所の状態 `l` と記憶 `s` から処理を最後まで行うと、記憶は `s'` になり、結果は `r` である。 -/
inductive Runs (P : Guarded ι σ Λ ρ Op) : Λ → σ → σ → ρ → Prop where
  | done {l : Λ} {s : σ} {r : ρ} : P.step l s = .inr r → Runs P l s s r
  | next {l l' : Λ} {s s' s'' : σ} {r : ρ} : P.step l s = .inl (l', s') → Runs P l' s' s'' r → Runs P l s s'' r

/-- 命令が続くときの、残りの実行。 -/
theorem runs_inl (h : P.step l s = .inl (l', s')) : P.Runs l s s'' r ↔ P.Runs l' s' s'' r := by
  constructor
  · intro hr
    cases hr with
    | done hdone => cases h.symm.trans hdone
    | next hnext hrest =>
        cases h.symm.trans hnext
        exact hrest
  · exact .next h

theorem runs_inr {r' : ρ} (h : P.step l s = .inr r) : P.Runs l s s' r' ↔ s' = s ∧ r' = r := by
  constructor
  · intro hr
    cases hr with
    | done hdone =>
        cases h.symm.trans hdone
        exact ⟨rfl, rfl⟩
    | next hnext _ => cases h.symm.trans hnext
  · rintro ⟨rfl, rfl⟩
    exact .done h

/-- 処理の途中までの実行。 -/
inductive Steps (P : Guarded ι σ Λ ρ Op) (l : Λ) (s : σ) : Λ → σ → Prop where
  | refl : Steps P l s l s
  | snoc {l' l'' : Λ} {s' s'' : σ} : Steps P l s l' s' → P.step l' s' = .inl (l'', s'') → Steps P l s l'' s''

theorem Steps.runs (h : P.Steps l s l' s') (hr : P.Runs l' s' s'' r) : P.Runs l s s'' r := by
  induction h with
  | refl => exact hr
  | snoc _ hstep ih => exact ih (.next hstep hr)

/-- 途中の処理の残りは、初めからの処理と同じ結果に至る。 -/
theorem Steps.resume (h : P.Steps l s l' s') (hr : P.Runs l s s'' r) : P.Runs l' s' s'' r := by
  induction h with
  | refl => exact hr
  | snoc _ hstep ih => exact (runs_inl hstep).mp ih

/-! ## 参加者の実行 -/

/-- 参加者の位置。 -/
inductive Phase (Op Λ ρ : Type) where
  | idle
  -- 錠が空くのを待つ。
  | spin (op : Op)
  | inside (op : Op) (l : Λ)
  -- 処理を終え、まだ錠を放していない。
  | leaving (op : Op) (r : ρ)

/-- 参加者が持つ錠。 -/
def key? (P : Guarded ι σ Λ ρ Op) : Phase Op Λ ρ → Option ι
  | .idle | .spin _ => none
  | .inside op _ | .leaving op _ => some (P.lock op)

/-- 全体の状態。`log` は、錠を放した順に並べた、終わった処理とその結果である。 -/
structure Sys (P : Guarded ι σ Λ ρ Op) (n : Nat) where
  cell : ι → σ
  held : ι → Bool
  phase : Fin n → Phase Op Λ ρ
  log : List (Op × ρ)

variable {n : Nat} {m m' : P.Sys n} {s₀ A : ι → σ} {t u : Fin n} {log : List (Op × ρ)} [DecidableEq ι]

/-- 始まりの状態。どの錠の語も 0 であり、どの錠も空いているものとする。 -/
def Sys.init (P : Guarded ι σ Λ ρ Op) (n : Nat) (s₀ : ι → σ) : P.Sys n :=
  { cell := s₀, held := fun _ => false, phase := fun _ => .idle, log := [] }

/-- 一つの遷移。錠の検査と書き込みは不可分である。 -/
inductive Sys.Step (m : P.Sys n) (t : Fin n) : P.Sys n → Prop where
  | call (op : Op) : m.phase t = .idle → Step m t { m with phase := Function.update m.phase t (.spin op) }
  | acquire {op : Op} : m.phase t = .spin op → m.held (P.lock op) = false → Step m t { m with
      held := Function.update m.held (P.lock op) true
      phase := Function.update m.phase t (.inside op (P.start op)) }
  | wait {op : Op} : m.phase t = .spin op → m.held (P.lock op) = true → Step m t m
  | work {op : Op} {l l' : Λ} {s' : σ} : m.phase t = .inside op l → P.step l (m.cell (P.lock op)) = .inl (l', s') →
      Step m t { m with
        cell := Function.update m.cell (P.lock op) s'
        phase := Function.update m.phase t (.inside op l') }
  | finish {op : Op} {l : Λ} {r : ρ} : m.phase t = .inside op l → P.step l (m.cell (P.lock op)) = .inr r →
      Step m t { m with phase := Function.update m.phase t (.leaving op r) }
  | release {op : Op} {r : ρ} : m.phase t = .leaving op r → Step m t { m with
      held := Function.update m.held (P.lock op) false
      phase := Function.update m.phase t .idle
      log := m.log ++ [(op, r)] }

inductive Sys.Reach (P : Guarded ι σ Λ ρ Op) (n : Nat) (s₀ : ι → σ) : P.Sys n → Prop where
  | init : Reach P n s₀ (Sys.init P n s₀)
  | step {m m' : P.Sys n} {t : Fin n} : Reach P n s₀ m → m.Step t m' → Reach P n s₀ m'

/-! ## 順に行う実行 -/

/-- 処理を一つずつ順に行うと、それぞれの結果を返して、記憶は `A` になる。 -/
inductive Replay (P : Guarded ι σ Λ ρ Op) (s₀ : ι → σ) : List (Op × ρ) → (ι → σ) → Prop where
  | nil : Replay P s₀ [] s₀
  | snoc {log : List (Op × ρ)} {A : ι → σ} {op : Op} {s' : σ} {r : ρ} : Replay P s₀ log A →
      P.Runs (P.start op) (A (P.lock op)) s' r → Replay P s₀ (log ++ [(op, r)]) (Function.update A (P.lock op) s')

/-- 順に行う実行 `A` との対応。錠を持つ参加者の途中の書き込みだけが、`A` との違いである。 -/
structure Sys.Explained (s₀ : ι → σ) (m : P.Sys n) (A : ι → σ) : Prop where
  replay : P.Replay s₀ m.log A
  free : ∀ i, m.held i = false → m.cell i = A i
  locked : ∀ t i, P.key? (m.phase t) = some i → m.held i = true
  owner : ∀ i, m.held i = true → ∃ t, P.key? (m.phase t) = some i
  excl : ∀ t u i, P.key? (m.phase t) = some i → P.key? (m.phase u) = some i → t = u
  inside : ∀ t op l, m.phase t = .inside op l → P.Steps (P.start op) (A (P.lock op)) l (m.cell (P.lock op))
  leaving : ∀ t op r, m.phase t = .leaving op r → P.Runs (P.start op) (A (P.lock op)) (m.cell (P.lock op)) r

theorem Sys.init_explained (P : Guarded ι σ Λ ρ Op) (n : Nat) (s₀ : ι → σ) :
    (Sys.init P n s₀).Explained s₀ s₀ :=
  ⟨.nil, fun _ _ => rfl, by simp [Sys.init, key?], by simp [Sys.init], by simp [Sys.init, key?], by simp [Sys.init],
    by simp [Sys.init]⟩

/-- 別の参加者の持つ錠は異なる。 -/
theorem Sys.Explained.key_ne {j : ι} (h : m.Explained s₀ A) (hne : u ≠ t) (ht : P.key? (m.phase t) = some i)
    (hu : P.key? (m.phase u) = some j) : j ≠ i := by
  rintro rfl
  exact hne (h.excl u t j hu ht)

/-- 錠と記憶に触れず、持つ錠も変えない遷移。 -/
theorem Sys.Explained.move {ph : Phase Op Λ ρ} (h : m.Explained s₀ A) (hkey : P.key? ph = P.key? (m.phase t))
    (hin : ∀ op l, ph = .inside op l → P.Steps (P.start op) (A (P.lock op)) l (m.cell (P.lock op)))
    (hout : ∀ op r, ph = .leaving op r → P.Runs (P.start op) (A (P.lock op)) (m.cell (P.lock op)) r) :
    Sys.Explained (P := P) s₀ { m with phase := Function.update m.phase t ph } A := by
  have hkeys (u : Fin n) : P.key? (Function.update m.phase t ph u) = P.key? (m.phase u) := by
    by_cases hu : u = t
    · subst hu
      rw [Function.update_self, hkey]
    · rw [Function.update_of_ne hu]
  refine ⟨h.replay, h.free, fun u i hu => h.locked u i (hkeys u ▸ hu), ?_,
    fun u v i hu hv => h.excl u v i (hkeys u ▸ hu) (hkeys v ▸ hv), ?_, ?_⟩
  · intro i hi
    obtain ⟨u, hu⟩ := h.owner i hi
    exact ⟨u, (hkeys u).trans hu⟩
  · intro u op l hu
    by_cases hut : u = t
    · subst hut
      exact hin op l (by simpa using hu)
    · exact h.inside u op l (by simpa [hut] using hu)
  · intro u op r hu
    by_cases hut : u = t
    · subst hut
      exact hout op r (by simpa using hu)
    · exact h.leaving u op r (by simpa [hut] using hu)

/-- 錠を取る遷移。 -/
theorem Sys.Explained.acquire (h : m.Explained s₀ A) (hph : m.phase t = .spin op)
    (hfree : m.held (P.lock op) = false) : Sys.Explained (P := P) s₀ { m with
      held := Function.update m.held (P.lock op) true
      phase := Function.update m.phase t (.inside op (P.start op)) } A := by
  -- 空いている錠を持つ参加者はいない。
  have hnone {u : Fin n} {j : ι} (hu : P.key? (m.phase u) = some j) : j ≠ P.lock op := by
    rintro rfl
    cases hfree.symm.trans (h.locked u _ hu)
  have hcase {u : Fin n} {j : ι} (hu : P.key? (Function.update m.phase t (.inside op (P.start op)) u) = some j) :
      u = t ∧ j = P.lock op ∨ u ≠ t ∧ P.key? (m.phase u) = some j := by
    by_cases hut : u = t
    · subst hut
      exact Or.inl ⟨rfl, by simpa [key?, eq_comm] using hu⟩
    · exact Or.inr ⟨hut, by simpa [hut] using hu⟩
  refine ⟨h.replay, ?_, ?_, ?_, ?_, ?_, ?_⟩
  · intro j hj
    by_cases hne : j = P.lock op
    · simp [hne] at hj
    · exact h.free j (by simpa [hne] using hj)
  · intro u j hu
    rcases hcase hu with ⟨_, rfl⟩ | ⟨_, hu⟩
    · simp
    · simp [hnone hu, h.locked u j hu]
  · intro j hj
    by_cases hne : j = P.lock op
    · exact ⟨t, by simp [key?, hne]⟩
    · obtain ⟨u, hu⟩ := h.owner j (by simpa [hne] using hj)
      have hut : u ≠ t := by
        rintro rfl
        simp [hph, key?] at hu
      exact ⟨u, by simpa [hut] using hu⟩
  · intro u v j hu hv
    rcases hcase hu with ⟨rfl, rfl⟩ | ⟨_, hu₁⟩
    · rcases hcase hv with ⟨rfl, _⟩ | ⟨_, hv₁⟩
      · rfl
      · exact absurd rfl (hnone hv₁)
    · rcases hcase hv with ⟨rfl, rfl⟩ | ⟨_, hv₁⟩
      · exact absurd rfl (hnone hu₁)
      · exact h.excl u v j hu₁ hv₁
  · intro u op' l hu
    by_cases hut : u = t
    · subst hut
      simp only [Function.update_self, Phase.inside.injEq] at hu
      obtain ⟨rfl, rfl⟩ := hu
      rw [h.free _ hfree]
      exact .refl
    · exact h.inside u op' l (by simpa [hut] using hu)
  · intro u op' r hu
    by_cases hut : u = t
    · subst hut
      simp at hu
    · exact h.leaving u op' r (by simpa [hut] using hu)

/-- 錠を持つ間の一命令。 -/
theorem Sys.Explained.work (h : m.Explained s₀ A) (hph : m.phase t = .inside op l)
    (hstep : P.step l (m.cell (P.lock op)) = .inl (l', s')) : Sys.Explained (P := P) s₀ { m with
      cell := Function.update m.cell (P.lock op) s'
      phase := Function.update m.phase t (.inside op l') } A := by
  have hkey : P.key? (m.phase t) = some (P.lock op) := by rw [hph, key?]
  have hkeys (u : Fin n) : P.key? (Function.update m.phase t (.inside op l') u) = P.key? (m.phase u) := by
    by_cases hu : u = t
    · subst hu
      rw [Function.update_self, hkey, key?]
    · rw [Function.update_of_ne hu]
  refine ⟨h.replay, ?_, fun u i hu => h.locked u i (hkeys u ▸ hu), ?_,
    fun u v i hu hv => h.excl u v i (hkeys u ▸ hu) (hkeys v ▸ hv), ?_, ?_⟩
  · intro j hj
    dsimp only at hj ⊢
    have hne : j ≠ P.lock op := by
      rintro rfl
      cases (h.locked t _ hkey).symm.trans hj
    rw [Function.update_of_ne hne]
    exact h.free j hj
  · intro j hj
    obtain ⟨u, hu⟩ := h.owner j hj
    exact ⟨u, (hkeys u).trans hu⟩
  · intro u op' l'' hu
    dsimp only at hu ⊢
    by_cases hut : u = t
    · subst hut
      simp only [Function.update_self, Phase.inside.injEq] at hu
      obtain ⟨rfl, rfl⟩ := hu
      rw [Function.update_self]
      exact (h.inside u op l hph).snoc hstep
    · rw [Function.update_of_ne hut] at hu
      have hne := h.key_ne hut hkey (by rw [hu, key?])
      rw [Function.update_of_ne hne]
      exact h.inside u op' l'' hu
  · intro u op' r hu
    dsimp only at hu ⊢
    by_cases hut : u = t
    · subst hut
      simp at hu
    · rw [Function.update_of_ne hut] at hu
      have hne := h.key_ne hut hkey (by rw [hu, key?])
      rw [Function.update_of_ne hne]
      exact h.leaving u op' r hu

/-- 錠を放す遷移で、順に行う実行が一つ進む。 -/
theorem Sys.Explained.release (h : m.Explained s₀ A) (hph : m.phase t = .leaving op r) : Sys.Explained (P := P) s₀ { m with
      held := Function.update m.held (P.lock op) false
      phase := Function.update m.phase t .idle
      log := m.log ++ [(op, r)] } (Function.update A (P.lock op) (m.cell (P.lock op))) := by
  have hkey : P.key? (m.phase t) = some (P.lock op) := by rw [hph, key?]
  have hother {u : Fin n} {j : ι} (hu : P.key? (Function.update m.phase t .idle u) = some j) :
      j ≠ P.lock op ∧ P.key? (m.phase u) = some j := by
    by_cases hut : u = t
    · subst hut
      simp [key?] at hu
    · rw [Function.update_of_ne hut] at hu
      exact ⟨h.key_ne hut hkey hu, hu⟩
  refine ⟨h.replay.snoc (h.leaving t op r hph), ?_, ?_, ?_, ?_, ?_, ?_⟩
  · intro j hj
    dsimp only at hj ⊢
    by_cases hne : j = P.lock op
    · subst hne
      rw [Function.update_self]
    · rw [Function.update_of_ne hne] at hj ⊢
      exact h.free j hj
  · intro u j hu
    dsimp only at hu ⊢
    obtain ⟨hne, hu⟩ := hother hu
    rw [Function.update_of_ne hne]
    exact h.locked u j hu
  · intro j hj
    dsimp only at hj ⊢
    by_cases hne : j = P.lock op
    · simp [hne] at hj
    · rw [Function.update_of_ne hne] at hj
      obtain ⟨u, hu⟩ := h.owner j hj
      have hut : u ≠ t := by
        rintro rfl
        exact hne (Option.some.inj (hu.symm.trans hkey))
      exact ⟨u, by rwa [Function.update_of_ne hut]⟩
  · intro u v j hu hv
    exact h.excl u v j (hother hu).2 (hother hv).2
  · intro u op' l hu
    dsimp only at hu ⊢
    have hne := (hother (u := u) (by rw [hu, key?])).1
    rw [Function.update_of_ne hne]
    by_cases hut : u = t
    · subst hut
      simp at hu
    · exact h.inside u op' l (by simpa [hut] using hu)
  · intro u op' r' hu
    dsimp only at hu ⊢
    have hne := (hother (u := u) (by rw [hu, key?])).1
    rw [Function.update_of_ne hne]
    by_cases hut : u = t
    · subst hut
      simp at hu
    · exact h.leaving u op' r' (by simpa [hut] using hu)

theorem Sys.Step.explained (h : m.Explained s₀ A) (hs : m.Step t m') : ∃ A', m'.Explained s₀ A' := by
  cases hs with
  | call _ hph => exact ⟨A, h.move (by rw [hph, key?, key?]) (by simp) (by simp)⟩
  | acquire hph hfree => exact ⟨A, h.acquire hph hfree⟩
  | wait _ _ => exact ⟨A, h⟩
  | work hph hstep => exact ⟨A, h.work hph hstep⟩
  | @finish op l r hph hstep =>
      refine ⟨A, h.move (by rw [hph, key?, key?]) (by simp) ?_⟩
      rintro op' r' ⟨⟩
      exact (h.inside t op l hph).runs (.done hstep)
  | release hph => exact ⟨_, h.release hph⟩

/-- どの交互実行も、終わった処理を錠を放した順に一つずつ行う実行に対応する。 -/
theorem Sys.Reach.explained (h : Sys.Reach P n s₀ m) : ∃ A, m.Explained s₀ A := by
  induction h with
  | init => exact ⟨s₀, Sys.init_explained P n s₀⟩
  | step _ hs ih =>
      obtain ⟨A, hA⟩ := ih
      exact hs.explained hA

/-! ## 待つ処理の完了 -/

/-- いくつかの遷移。 -/
def Sys.Leads (m m' : P.Sys n) : Prop := Relation.ReflTransGen (fun m m' => ∃ t, Sys.Step m t m') m m'

theorem Sys.leads_release (hph : m.phase t = .leaving op r) : ∃ m' : P.Sys n, m.Leads m' ∧ m'.phase t = .idle ∧
    m'.held (P.lock op) = false ∧ ∀ u, u ≠ t → m'.phase u = m.phase u :=
  ⟨_, .single ⟨t, .release hph⟩, Function.update_self .., Function.update_self .., fun _ hu => Function.update_of_ne hu ..⟩

/-- 錠を持つ参加者は、ひとりで処理を終えて錠を放せる。 -/
theorem Sys.leads_inside (hph : m.phase t = .inside op l) (hr : P.Runs l (m.cell (P.lock op)) s' r) :
    ∃ m' : P.Sys n, m.Leads m' ∧ m'.phase t = .idle ∧ m'.held (P.lock op) = false ∧
      ∀ u, u ≠ t → m'.phase u = m.phase u := by
  generalize hc : m.cell (P.lock op) = c at hr
  induction hr generalizing m with
  | @done l c r hdone =>
      subst hc
      obtain ⟨m₁, hm₁, hph₁, hrest₁⟩ : ∃ m₁ : P.Sys n, m.Step t m₁ ∧ m₁.phase t = .leaving op r ∧
          ∀ u, u ≠ t → m₁.phase u = m.phase u :=
        ⟨_, .finish hph hdone, Function.update_self .., fun u hu => Function.update_of_ne hu ..⟩
      obtain ⟨m', hm, hidle, hheld, hrest⟩ := leads_release hph₁
      exact ⟨m', .head ⟨t, hm₁⟩ hm, hidle, hheld, fun u hu => (hrest u hu).trans (hrest₁ u hu)⟩
  | @next l l' c c' _ r hnext _ ih =>
      subst hc
      obtain ⟨m₁, hm₁, hph₁, hcell₁, hrest₁⟩ : ∃ m₁ : P.Sys n, m.Step t m₁ ∧ m₁.phase t = .inside op l' ∧
          m₁.cell (P.lock op) = c' ∧ ∀ u, u ≠ t → m₁.phase u = m.phase u :=
        ⟨_, .work hph hnext, Function.update_self .., Function.update_self .., fun u hu => Function.update_of_ne hu ..⟩
      obtain ⟨m', hm, hidle, hheld, hrest⟩ := ih hph₁ hcell₁
      exact ⟨m', .head ⟨t, hm₁⟩ hm, hidle, hheld, fun u hu => (hrest u hu).trans (hrest₁ u hu)⟩

/-- 処理が必ず終わるならば、どの参加者の呼び出しも、終わるところまで進められる。 -/
theorem Sys.Explained.completes (h : m.Explained s₀ A) (hterm : ∀ op s, ∃ s' r, P.Runs (P.start op) s s' r)
    (t : Fin n) : ∃ m' : P.Sys n, m.Leads m' ∧ m'.phase t = .idle := by
  -- 錠を持つ参加者は錠を放せる。
  have hholder {u : Fin n} {i : ι} (hu : P.key? (m.phase u) = some i) : ∃ m' : P.Sys n, m.Leads m' ∧
      m'.phase u = .idle ∧ m'.held i = false ∧ ∀ v, v ≠ u → m'.phase v = m.phase v := by
    cases hph : m.phase u with
    | idle => simp [hph, key?] at hu
    | spin op => simp [hph, key?] at hu
    | inside op l =>
        rw [hph, key?, Option.some.injEq] at hu
        subst hu
        obtain ⟨s', r, hr⟩ := hterm op (A (P.lock op))
        exact leads_inside hph ((h.inside u op l hph).resume hr)
    | leaving op r =>
        rw [hph, key?, Option.some.injEq] at hu
        subst hu
        exact leads_release hph
  -- 空いた錠を待つ参加者は、錠を取って処理を終えられる。
  have hwaiter {m : P.Sys n} {op : Op} (hph : m.phase t = .spin op) (hfree : m.held (P.lock op) = false) :
      ∃ m' : P.Sys n, m.Leads m' ∧ m'.phase t = .idle := by
    obtain ⟨s', r, hr⟩ := hterm op (m.cell (P.lock op))
    obtain ⟨m₁, hm₁, hph₁, hcell₁⟩ : ∃ m₁ : P.Sys n, m.Step t m₁ ∧ m₁.phase t = .inside op (P.start op) ∧
        m₁.cell = m.cell := ⟨_, .acquire hph hfree, Function.update_self .., rfl⟩
    obtain ⟨m', hm, hidle, _⟩ := leads_inside hph₁ (hcell₁ ▸ hr)
    exact ⟨m', .head ⟨t, hm₁⟩ hm, hidle⟩
  cases hph : m.phase t with
  | idle => exact ⟨m, .refl, hph⟩
  | inside op l =>
      obtain ⟨m', hm, hidle, _⟩ := hholder (u := t) (by rw [hph, key?])
      exact ⟨m', hm, hidle⟩
  | leaving op r =>
      obtain ⟨m', hm, hidle, _⟩ := hholder (u := t) (by rw [hph, key?])
      exact ⟨m', hm, hidle⟩
  | spin op =>
      cases hheld : m.held (P.lock op) with
      | false => exact hwaiter hph hheld
      | true =>
          obtain ⟨u, hu⟩ := h.owner _ hheld
          have hut : t ≠ u := by
            rintro rfl
            simp [hph, key?] at hu
          obtain ⟨m₁, hm₁, _, hfree, hrest⟩ := hholder hu
          obtain ⟨m', hm, hidle⟩ := hwaiter ((hrest t hut).trans hph) hfree
          exact ⟨m', hm₁.trans hm, hidle⟩

end Guarded

end Eleos
