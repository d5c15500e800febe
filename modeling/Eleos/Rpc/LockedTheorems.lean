import Eleos.Rpc.Lemmas.Queue
import Eleos.Rpc.Locked

/-!
# ロックの中の命令と、待ち行列の操作

ロックの中の命令の列は、`Queue::enqueue` と `Queue::dequeue` を一つの操作と見たものと同じ結果になる。
したがって、どの交互実行の結果も、錠を放した順に呼び出しを一つずつ行った結果である。
-/

namespace Eleos.Rpc

variable {α : Type} {s s' : Queue α} {c : Call α} {r : Except Stop (Option α)} {n : Nat}
  {m : (Queue.locked α).Sys n} {log : List (Call α × Except Stop (Option α))}

/-! ## 一つの呼び出し -/

/-- 一つの操作の結果 `x` を、ロックの中の命令の結果と同じ形にする。失敗した操作は記憶を変えない。 -/
def outcome (s : Queue α) (x : Except Stop (Option α × Queue α)) : Queue α × Except Stop (Option α) :=
  match x with
  | .ok (v, s') => (s', .ok v)
  | .error e => (s, .error e)

/-- 命令の列の結果は、一つの操作の結果である。 -/
theorem Queue.runs_iff : (Queue.locked α).Runs (.enter c) s s' r ↔ (s', r) = outcome s (s.call c) := by
  cases c with
  | enqueue x =>
      by_cases hfull : int32 (s.rear - s.front) = queueSize
      · have h₁ : (Queue.locked α).step (.enter (.enqueue x)) s = .inr (.error .abort) := if_pos hfull
        rw [Guarded.runs_inr h₁]
        simp [Queue.call, Queue.enqueue, hfull, outcome, Bind.bind, Except.bind]
      · have h₁ : (Queue.locked α).step (.enter (.enqueue x)) s = .inl (.store x, s) := if_neg hfull
        rw [Guarded.runs_inl h₁]
        cases hk : slot s.rear with
        | error e =>
            have h₂ : (Queue.locked α).step (.store x) s = .inr (.error e) := by simp [Queue.locked, Queue.instr, hk]
            rw [Guarded.runs_inr h₂]
            simp [Queue.call, Queue.enqueue, hfull, hk, outcome, Bind.bind, Except.bind]
        | ok k =>
            have h₂ : (Queue.locked α).step (.store x) s =
                .inl (.readRear, { s with q := Function.update s.q k (some x) }) := by
              simp [Queue.locked, Queue.instr, hk]
            rw [Guarded.runs_inl h₂, Guarded.runs_inl rfl, Guarded.runs_inl rfl, Guarded.runs_inr rfl]
            simp [Queue.call, Queue.enqueue, hfull, hk, outcome, Bind.bind, Except.bind]
  | dequeue =>
      by_cases hempty : s.front = s.rear
      · have h₁ : (Queue.locked α).step (.enter .dequeue) s = .inr (.ok none) := if_pos hempty
        rw [Guarded.runs_inr h₁]
        simp [Queue.call, Queue.dequeue, hempty, outcome]
      · have h₁ : (Queue.locked α).step (.enter .dequeue) s = .inl (.load, s) := if_neg hempty
        rw [Guarded.runs_inl h₁]
        cases hk : slot s.front with
        | error e =>
            have h₂ : (Queue.locked α).step .load s = .inr (.error e) := by simp [Queue.locked, Queue.instr, hk]
            rw [Guarded.runs_inr h₂]
            simp [Queue.call, Queue.dequeue, hempty, hk, outcome, Bind.bind, Except.bind]
        | ok k =>
            have h₂ : (Queue.locked α).step .load s = .inl (.readFront (s.q k), s) := by
              simp [Queue.locked, Queue.instr, hk]
            rw [Guarded.runs_inl h₂, Guarded.runs_inl rfl, Guarded.runs_inl rfl, Guarded.runs_inr rfl]
            simp [Queue.call, Queue.dequeue, hempty, hk, outcome, Bind.bind, Except.bind]

/-- ロックの中の命令は必ず終わる。 -/
theorem Queue.locked_runs (c : Call α) (s : Queue α) :
    ∃ s' r, (Queue.locked α).Runs ((Queue.locked α).start c) s s' r := ⟨_, _, Queue.runs_iff.mpr rfl⟩

/-! ## 順に行う呼び出し -/

theorem Queue.calls_snoc {t t' : Queue α} {cs : List (Call α)} {rs : List (Option α)} {v : Option α}
    (h : s.calls cs = .ok (rs, t)) (hc : t.call c = .ok (v, t')) : s.calls (cs ++ [c]) = .ok (rs ++ [v], t') := by
  induction cs generalizing s rs with
  | nil =>
      cases h
      simp [Queue.calls, hc, Bind.bind, Except.bind]
  | cons d cs ih =>
      obtain ⟨⟨w, u⟩, hd, h⟩ := bind_ok_iff.mp h
      obtain ⟨⟨ws, u'⟩, hcs, h⟩ := bind_ok_iff.mp h
      cases h
      have hrest := ih hcs
      simp [Queue.calls, hd, hrest, Bind.bind, Except.bind]

theorem offered_snoc (c : Call α) (r : Except Stop (Option α)) :
    offered (log ++ [(c, r)]) = offered log ++ offered [(c, r)] := List.filterMap_append

theorem delivered_snoc (c : Call α) (r : Except Stop (Option α)) :
    delivered (log ++ [(c, r)]) = delivered log ++ delivered [(c, r)] := List.filterMap_append

/-- 満杯に出会わなければ、順に行う呼び出しは失敗せず、待ち行列と履歴の関係を保つ。 -/
theorem replay_hist {A : Unit → Queue α} (h : (Queue.locked α).Replay (fun _ => Queue.new) log A)
    (hfull : ∀ c, (c, .error .abort) ∉ log) (hle : (offered log).length ≤ 2147483649) :
    Hist.Inv ⟨A (), offered log, delivered log⟩ ∧
      ∃ rs, Queue.new.calls (log.map Prod.fst) = .ok (rs, A ()) ∧ log.map Prod.snd = rs.map .ok := by
  induction h with
  | nil => exact ⟨Hist.Inv.new, [], rfl, rfl⟩
  | @snoc log A c s' r hrep hruns ih =>
      rw [offered_snoc, List.length_append] at hle
      obtain ⟨hinv, rs, hcalls, hrs⟩ := ih (fun c hc => hfull c (List.mem_append_left _ hc)) (by omega)
      -- 一つの呼び出しが成功すれば、結果の並びが一つ伸びる。
      have hfin {v : Option α} {q : Queue α} (hcall : (A ()).call c = .ok (v, q))
          (hinv' : Hist.Inv ⟨q, offered (log ++ [(c, .ok v)]), delivered (log ++ [(c, .ok v)])⟩) :
          Hist.Inv ⟨Function.update A () s' (), offered (log ++ [(c, r)]), delivered (log ++ [(c, r)])⟩ ∧
            ∃ rs, Queue.new.calls ((log ++ [(c, r)]).map Prod.fst) = .ok (rs, Function.update A () s' ()) ∧
              (log ++ [(c, r)]).map Prod.snd = rs.map .ok := by
        have hout := Queue.runs_iff.mp hruns
        simp only [Queue.locked, hcall, outcome, Prod.mk.injEq] at hout
        obtain ⟨rfl, rfl⟩ := hout
        rw [Function.update_self]
        refine ⟨hinv', rs ++ [v], ?_, by simp [hrs]⟩
        rw [List.map_append]
        exact Queue.calls_snoc hcalls hcall
      cases c with
      | enqueue x =>
          by_cases hroom : Hist.outstanding ⟨A (), offered log, delivered log⟩ = queueSize
          · have hcall : (A ()).call (.enqueue x) = .error .abort := by
              have hf : int32 ((A ()).rear - (A ()).front) = queueSize := hinv.full_iff.mpr hroom
              simp [Queue.call, Queue.enqueue, hf, Bind.bind, Except.bind]
            have hout := Queue.runs_iff.mp hruns
            simp only [Queue.locked, hcall, outcome, Prod.mk.injEq] at hout
            exact absurd (List.mem_append_right log (List.mem_singleton.mpr (by rw [hout.2]))) (hfull (.enqueue x))
          · obtain ⟨h', hstep, hinv', he, hd⟩ := hinv.enqueue x hroom (by simp [offered] at hle ⊢; omega)
            obtain ⟨q, hq, hstep⟩ := bind_ok_iff.mp hstep
            cases hstep
            have hcall : (A ()).call (.enqueue x) = .ok (none, q) := bind_ok_iff.mpr ⟨q, hq, rfl⟩
            apply hfin hcall
            rw [offered_snoc, delivered_snoc]
            simpa [offered, delivered] using hinv'
      | dequeue =>
          by_cases hempty : Hist.outstanding ⟨A (), offered log, delivered log⟩ = 0
          · apply hfin (hinv.dequeue_none hempty).1
            rw [offered_snoc, delivered_snoc]
            simpa [offered, delivered] using hinv
          · obtain ⟨x, q, hq, hinv'⟩ := hinv.dequeue (by simp only; omega) hempty
            apply hfin hq
            rw [offered_snoc, delivered_snoc]
            simpa [offered, delivered] using hinv'

/-! ## どの交互実行でも -/

/-- 錠を放した順に並べると、どの呼び出しの結果も順に行った呼び出しの結果であり、取り出した要求は加えた要求の初めの部分である。
どのスレッドの呼び出しも、終わるところまで進められる。`Queue::Queue` は `_lock` を初期化しない。ここでは、`_lock` の初めの
値は 0 であるものとする。 -/
theorem queue_linearizable (h : Guarded.Sys.Reach (Queue.locked α) n (fun _ => Queue.new) m)
    (hfull : ∀ c, (c, .error .abort) ∉ m.log) (hle : (offered m.log).length ≤ 2147483649) :
    (∃ rs q, Queue.new.calls (m.log.map Prod.fst) = .ok (rs, q) ∧ m.log.map Prod.snd = rs.map .ok ∧
      (m.held () = false → m.cell () = q)) ∧
    delivered m.log <+: offered m.log ∧
    ∀ t, ∃ m' : (Queue.locked α).Sys n, m.Leads m' ∧ m'.phase t = .idle := by
  obtain ⟨A, hA⟩ := h.explained
  obtain ⟨hinv, rs, hcalls, hrs⟩ := replay_hist hA.replay hfull hle
  refine ⟨⟨rs, A (), hcalls, hrs, hA.free ()⟩, ?_, hA.completes Queue.locked_runs⟩
  have htaken : delivered m.log = (offered m.log).take (delivered m.log).length := hinv.taken
  rw [htaken]
  exact List.take_prefix ..

/-- スレッド 0 が 7 を加える間、スレッド 1 は錠を待ち、そのあとで 7 を取り出す。 -/
theorem exists_contended : ∃ m : (Queue.locked Nat).Sys 2,
    Guarded.Sys.Reach (Queue.locked Nat) 2 (fun _ => Queue.new) m ∧
      m.log = [(.enqueue 7, .ok none), (.dequeue, .ok (some 7))] := by
  have h₀ : Guarded.Sys.Reach (Queue.locked Nat) 2 (fun _ => Queue.new) (Guarded.Sys.init _ 2 fun _ => Queue.new) :=
    .init
  have h₁ := h₀.step (.call (t := 0) (.enqueue 7) rfl)
  have h₂ := h₁.step (.call (t := 1) .dequeue rfl)
  have h₃ := h₂.step (.acquire (t := 0) rfl rfl)
  have h₄ := h₃.step (.wait (t := 1) rfl rfl)
  have h₅ := h₄.step (.work (t := 0) rfl rfl)
  have h₆ := h₅.step (.work (t := 0) rfl rfl)
  have h₇ := h₆.step (.work (t := 0) rfl rfl)
  have h₈ := h₇.step (.work (t := 0) rfl rfl)
  have h₉ := h₈.step (.finish (t := 0) rfl rfl)
  have h₁₀ := h₉.step (.release (t := 0) rfl)
  have h₁₁ := h₁₀.step (.acquire (t := 1) rfl rfl)
  have h₁₂ := h₁₁.step (.work (t := 1) rfl rfl)
  have h₁₃ := h₁₂.step (.work (t := 1) rfl rfl)
  have h₁₄ := h₁₃.step (.work (t := 1) rfl rfl)
  have h₁₅ := h₁₄.step (.work (t := 1) rfl rfl)
  have h₁₆ := h₁₅.step (.finish (t := 1) rfl rfl)
  have h₁₇ := h₁₆.step (.release (t := 1) rfl)
  exact ⟨_, h₁₇, rfl⟩

theorem queue_linearizable_contended : ∃ m : (Queue.locked Nat).Sys 2,
    m.log = [(.enqueue 7, .ok none), (.dequeue, .ok (some 7))] ∧ delivered m.log <+: offered m.log ∧
      ∀ t, ∃ m' : (Queue.locked Nat).Sys 2, m.Leads m' ∧ m'.phase t = .idle := by
  obtain ⟨m, hr, hlog⟩ := exists_contended
  have hlin := queue_linearizable hr (by simp [hlog]) (by simp [hlog, offered])
  exact ⟨m, hlog, hlin.2⟩

end Eleos.Rpc
