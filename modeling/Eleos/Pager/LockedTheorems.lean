import Eleos.Pager.Lemmas.Cache
import Eleos.Pager.Locked

/-!
# 参照の数の正確さ

どの交互実行でも、参照の数は、終わった `inc_ref_count` と `dec_ref_count` の回数の差である。
-/

namespace Eleos.Pager

variable {k store n : Nat} {c : PageCache} {r r' : Int → UInt8} {v : Except Stop Unit} {op : CountOp} {p q : Int}
  {m : (countLocked k store).Sys n} {log : List (CountOp × Except Stop Unit)} {A : Nat → Int → UInt8}

/-! ## 一つの呼び出し -/

/-- 命令の列の結果は、`PageCache` の一つの操作の結果である。 -/
theorem countRuns_iff (hc : c.backingStoreSize = store) :
    (countLocked k store).Runs (.load op) c.refCount r' v ↔
      (r', v) = match c.count op with
        | .ok c' => (c'.refCount, .ok ())
        | .error e => (c.refCount, .error e) := by
  have hcount : c.count op = c.setRefCount op.page fun v => op.apply v := by
    cases op with
    | inc p => rfl
    | dec p => rfl
  rw [hcount]
  by_cases hp : 0 ≤ op.page ∧ op.page < store
  · have h₁ : (countLocked k store).step (.load op) c.refCount =
        .inl (.store op.page (op.apply (c.refCount op.page)), c.refCount) := if_pos hp
    have hset := (PageCache.setRefCount_ok_iff (f := fun v => op.apply v)).mpr ⟨hc ▸ hp, rfl⟩
    rw [Guarded.runs_inl h₁, Guarded.runs_inl rfl, Guarded.runs_inr rfl, hset]
    simp
  · have h₁ : (countLocked k store).step (.load op) c.refCount = .inr (.error .outOfBounds) := if_neg hp
    rw [Guarded.runs_inr h₁, PageCache.setRefCount, if_neg (hc ▸ hp)]
    simp

/-- 命令の列は、範囲の中のページの数だけを変え、範囲の外のページには失敗する。 -/
theorem countRuns_spec (h : (countLocked k store).Runs (.load op) r r' v) :
    0 ≤ op.page ∧ op.page < store ∧ r' = Function.update r op.page (op.apply (r op.page)) ∧ v = .ok () ∨
      ¬ (0 ≤ op.page ∧ op.page < store) ∧ r' = r ∧ v = .error .outOfBounds := by
  by_cases hp : 0 ≤ op.page ∧ op.page < store
  · have h₁ : (countLocked k store).step (.load op) r = .inl (.store op.page (op.apply (r op.page)), r) := if_pos hp
    rw [Guarded.runs_inl h₁, Guarded.runs_inl rfl, Guarded.runs_inr rfl] at h
    exact Or.inl ⟨hp.1, hp.2, h.1, h.2⟩
  · have h₁ : (countLocked k store).step (.load op) r = .inr (.error .outOfBounds) := if_neg hp
    rw [Guarded.runs_inr h₁] at h
    exact Or.inr ⟨hp, h.1, h.2⟩

/-- 命令の列は必ず終わる。 -/
theorem countLocked_runs (op : CountOp) (r : Int → UInt8) :
    ∃ r' v, (countLocked k store).Runs ((countLocked k store).start op) r r' v :=
  ⟨_, _, (countRuns_iff (c := { PageCache.init k store 0 with refCount := r }) rfl).mpr rfl⟩

/-! ## 終わった呼び出しの数 -/

/-- 成功した `inc_ref_count` の回数と `dec_ref_count` の回数の、256 を法とする差。 -/
def netCount (log : List (CountOp × Except Stop Unit)) (p : Int) : UInt8 :=
  UInt8.ofNat (log.count (.inc p, .ok ())) - UInt8.ofNat (log.count (.dec p, .ok ()))

@[simp] theorem netCount_nil : netCount [] p = 0 := by simp [netCount]

theorem netCount_append (log log' : List (CountOp × Except Stop Unit)) (p : Int) :
    netCount (log ++ log') p = netCount log p + netCount log' p := by
  simp only [netCount, List.count_append, UInt8.ofNat_add]
  grind

@[simp] theorem netCount_error {e : Stop} : netCount [(op, .error e)] p = 0 := by simp [netCount]

/-- 成功した一つの呼び出し。 -/
theorem netCount_ok : netCount [(op, .ok ())] p = if op.page = p then op.apply 0 else 0 := by
  cases op with
  | inc q =>
      by_cases hq : q = p
      · simp [netCount, CountOp.page, CountOp.apply, hq]
      · simp [netCount, CountOp.page, hq]
  | dec q =>
      by_cases hq : q = p
      · simp [netCount, CountOp.page, CountOp.apply, hq]
      · simp [netCount, CountOp.page, hq]

theorem CountOp.apply_eq (x : UInt8) (op : CountOp) : op.apply x = x + op.apply 0 := by
  cases op with
  | inc q => simp [CountOp.apply]
  | dec q => simp [CountOp.apply, UInt8.sub_eq_add_neg]

/-- 順に行う呼び出しのあと、数は成功した呼び出しの回数の、256 を法とする差である。 -/
theorem replay_netCount (h : (countLocked k store).Replay (fun _ _ => 0) log A) (p : Int) :
    A (bucketIndex k p) p = netCount log p := by
  induction h with
  | nil => simp
  | @snoc log A op r' v _ hruns ih =>
      rw [netCount_append, ← ih]
      change Function.update A (bucketIndex k op.page) r' _ _ = _
      by_cases hb : bucketIndex k p = bucketIndex k op.page
      · rw [hb, Function.update_self]
        obtain ⟨_, _, rfl, rfl⟩ | ⟨_, rfl, rfl⟩ := countRuns_spec hruns
        · by_cases hp : p = op.page
          · subst hp
            rw [Function.update_self, CountOp.apply_eq, netCount_ok, if_pos rfl]
            rfl
          · rw [Function.update_of_ne hp, netCount_ok, if_neg (Ne.symm hp), UInt8.add_zero]
            rfl
        · simp [countLocked]
      · have hp : op.page ≠ p := by
          rintro rfl
          exact hb rfl
        rw [Function.update_of_ne hb]
        cases v with
        | error e => simp
        | ok u => rw [netCount_ok, if_neg hp, UInt8.add_zero]

/-! ## どの交互実行でも -/

/-- どの交互実行でも、錠の空いた連鎖に入るページの数は、成功した `inc_ref_count` と `dec_ref_count` の回数の、256 を法とする差で
ある。書き込みは失われず、どのスレッドの呼び出しも、終わるところまで進められる。 -/
theorem refCount_exact (h : Guarded.Sys.Reach (countLocked k store) n (fun _ _ => 0) m) :
    (∀ p, m.held (bucketIndex k p) = false → m.cell (bucketIndex k p) p = netCount m.log p) ∧
      ∀ t, ∃ m' : (countLocked k store).Sys n, m.Leads m' ∧ m'.phase t = .idle := by
  obtain ⟨A, hA⟩ := h.explained
  refine ⟨?_, hA.completes countLocked_runs⟩
  intro p hfree
  rw [hA.free _ hfree]
  exact replay_netCount hA.replay p

/-- スレッド 0 がページ 1 を数える間、スレッド 1 は同じ連鎖の錠を待つ。 -/
theorem exists_counted : ∃ m : (countLocked 4 8).Sys 2,
    Guarded.Sys.Reach (countLocked 4 8) 2 (fun _ _ => 0) m ∧
      m.log = [(.inc 1, .ok ()), (.inc 1, .ok ())] ∧ m.held (bucketIndex 4 1) = false := by
  have h₀ : Guarded.Sys.Reach (countLocked 4 8) 2 (fun _ _ => 0) (Guarded.Sys.init _ 2 fun _ _ => 0) := .init
  have h₁ := h₀.step (.call (t := 0) (.inc 1) rfl)
  have h₂ := h₁.step (.call (t := 1) (.inc 1) rfl)
  have h₃ := h₂.step (.acquire (t := 0) rfl rfl)
  have h₄ := h₃.step (.work (t := 0) rfl rfl)
  have h₅ := h₄.step (.wait (t := 1) rfl rfl)
  have h₆ := h₅.step (.work (t := 0) rfl rfl)
  have h₇ := h₆.step (.finish (t := 0) rfl rfl)
  have h₈ := h₇.step (.release (t := 0) rfl)
  have h₉ := h₈.step (.acquire (t := 1) rfl rfl)
  have h₁₀ := h₉.step (.work (t := 1) rfl rfl)
  have h₁₁ := h₁₀.step (.work (t := 1) rfl rfl)
  have h₁₂ := h₁₁.step (.finish (t := 1) rfl rfl)
  have h₁₃ := h₁₂.step (.release (t := 1) rfl)
  exact ⟨_, h₁₃, rfl, rfl⟩

theorem refCount_exact_contended : ∃ m : (countLocked 4 8).Sys 2,
    m.log = [(.inc 1, .ok ()), (.inc 1, .ok ())] ∧ m.cell (bucketIndex 4 1) 1 = 2 := by
  obtain ⟨m, hr, hlog, hfree⟩ := exists_counted
  refine ⟨m, hlog, ?_⟩
  rw [(refCount_exact hr).1 1 hfree, hlog]
  decide

end Eleos.Pager
