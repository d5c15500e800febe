import Eleos.Rpc.Lemmas.Progress
import Mathlib.Tactic.IntervalCases

/-!
# `rpc_ocall` が必ず戻ること
-/

namespace Eleos.Rpc

variable {n : Nat} {s s' : Sys n} {t : Fin n} {f : Frame} {b : Nat} {run : Nat → Sys n}

/-- 戻るまでは、同じ呼び出しの途中にある。 -/
theorem Client.Next.frame {c d : Client} (h : Client.Next c d) (hc : c ≠ .idle) (hd : d ≠ .idle) :
    d.frame? = c.frame? := by
  cases h with
  | call f => exact absurd rfl hc
  | mallocNull f => exact absurd rfl hd
  | malloc f b => rfl
  | fill f b => rfl
  | enqueue f b => rfl
  | acquire f b => rfl
  | free f b => exact absurd rfl hd

/-- 要求を解放して戻ると、呼び出しは成功している。 -/
theorem Step.returned (hs : Step s s') (ht : s.clients t = .locked f b) (hidle : s'.clients t = .idle) :
    f.call ∈ s'.returned := by
  have hne : s'.clients t ≠ s.clients t := by
    rw [hidle, ht]
    exact nofun
  cases hs with
  | call index ms hu => exact nomatch (Sys.eq_of_setClient hne ▸ ht).symm.trans hu
  | mallocNull hu => exact nomatch (Sys.eq_of_setClient hne ▸ ht).symm.trans hu
  | malloc c hu hfree => exact nomatch (Sys.eq_of_setClient hne ▸ ht).symm.trans hu
  | fill hu => exact nomatch (Sys.eq_of_setClient hne ▸ ht).symm.trans hu
  | enqueue hu hk => exact nomatch (Sys.eq_of_setClient hne ▸ ht).symm.trans hu
  | acquire hu hd => exact nomatch (Sys.eq_of_setClient hne ▸ ht).symm.trans hu
  | free hu =>
      cases (Sys.eq_of_setClient hne ▸ ht).symm.trans hu
      exact List.mem_append_right _ List.mem_cons_self
  | poll hw hq hk => exact absurd rfl hne
  | take hw hq hk => exact absurd rfl hne
  | run hw => exact absurd rfl hne
  | unlock hw => exact absurd rfl hne
  | other c r hfree => exact absurd rfl hne

/-- ある時点までずっと呼び出し `f` の途中にあるか、その前に戻る。 -/
theorem FairRun.until (h : FairRun run) {i l : Nat} (hf : ((run i).clients t).frame? = some f) (hil : i ≤ l) :
    (∀ k, i ≤ k → k ≤ l → ((run k).clients t).frame? = some f) ∨
      ∃ j, i ≤ j ∧ (∀ k, i ≤ k → k ≤ j → ((run k).clients t).frame? = some f) ∧ (run (j + 1)).clients t = .idle := by
  induction l, hil using Nat.le_induction with
  | base =>
      refine Or.inl fun k hik hki => ?_
      rwa [Nat.le_antisymm hki hik]
  | succ l hil ih =>
      cases ih with
      | inr hleft => exact Or.inr hleft
      | inl hbusy =>
          by_cases hidle : (run (l + 1)).clients t = .idle
          · exact Or.inr ⟨l, hil, hbusy, hidle⟩
          · have hl := hbusy l hil le_rfl
            have hnext : ((run (l + 1)).clients t).frame? = some f := by
              cases h.step l with
              | inl hs => rwa [hs]
              | inr hs =>
                  cases hs.client t with
                  | inl heq => rwa [heq]
                  | inr hn =>
                      refine (hn.frame ?_ hidle).trans hl
                      intro he
                      rw [he] at hl
                      cases hl
            refine Or.inl fun k hik hkl => ?_
            cases Nat.le_succ_iff.mp hkl with
            | inl hkl => exact hbusy k hik hkl
            | inr hkl => rwa [hkl]

/-- 公平な実行では、どの呼び出しもいつか戻る。戻るのは、`memsys5Malloc` が `NULL` を返したときか、処理が終わったときである。 -/
theorem rpc_ocall_returns (hn : n ≤ queueSize) (h : FairRun run)
    (hlen : ∀ i, (run i).hist.enqueued.length < 2147483648) (i : Nat) (hf : ((run i).clients t).frame? = some f) :
    ∃ j, i ≤ j ∧ (∀ k, i ≤ k → k ≤ j → ((run k).clients t).frame? = some f) ∧ (run (j + 1)).clients t = .idle ∧
      ((run j).clients t = .called f ∨ f.call ∈ (run (j + 1)).returned) := by
  have hbusy {j : Nat} (hj : ((run j).clients t).frame? = some f) : (run j).clients t ≠ .idle := by
    intro he
    rw [he] at hj
    cases hj
  obtain ⟨l, hil, hl⟩ := h.returns hn hlen t i (hbusy hf)
  obtain ⟨j, hij, hframe, hidle⟩ := (h.until hf hil).resolve_left fun hall => hbusy (hall l hil le_rfl) hl
  refine ⟨j, hij, hframe, hidle, ?_⟩
  have hj := hframe j hij le_rfl
  have hs : Step (run j) (run (j + 1)) := by
    refine (h.step j).resolve_left fun heq => hbusy hj ?_
    rwa [← heq]
  have hn := (hs.client t).resolve_left fun heq => hbusy hj (heq.symm.trans hidle)
  rw [hidle] at hn
  generalize hc : (run j).clients t = c at hn hj
  cases hn with
  | mallocNull g =>
      cases hj
      exact Or.inl rfl
  | free g b =>
      cases hj
      exact Or.inr (hs.returned hc hidle)

/-! ## 一つのスレッドの一度の呼び出し -/

/-- `k` に続けて `c` を行った待ち行列。 -/
def Hist.after (k : Hist Nat) (c : Call Nat) : Hist Nat :=
  match k.step c with
  | .ok k' => k'
  | .error _ => k

/-- 番号 7、引数 3 の呼び出しの `i` 番目の遷移。要求は 5 番のブロックに置く。 -/
def soloNext (i : Nat) (s : Sys 1) : Sys 1 :=
  let f : Frame := ⟨0, 7, 3⟩
  match i with
  | 0 => { s.setClient 0 (.called f) with calls := s.calls ++ [(7, 3)] }
  | 1 => s.setClient 0 (.allocated f 5)
  | 2 => (s.setClient 0 (.filled f 5)).setMem 5 ⟨7, 3, 1⟩
  | 3 => { s.setClient 0 (.waiting f 5) with hist := s.hist.after (.enqueue 5), sent := s.sent ++ [(f, 5)] }
  | 4 => { s with hist := s.hist.after .dequeue, worker := .taken 5 }
  | 5 =>
      { s with
        worker := .ran 5
        swapThreadWork := s.swapThreadWork || decide ((s.mem 5).ocallIndex = -1)
        handled := s.handled ++ [((s.mem 5).ocallIndex, (s.mem 5).buffer)] }
  | 6 => { s with worker := .polling }.setMem 5 { s.mem 5 with isDone := 0 }
  | 7 => (s.setClient 0 (.locked f 5)).setMem 5 { s.mem 5 with isDone := 1 }
  | 8 => { s.setClient 0 .idle with returned := s.returned ++ [0] }
  | _ => s

/-- 呼び出しが戻ったあとは、何も起こらない。 -/
def solo : Nat → Sys 1
  | 0 => Sys.init fun _ => ⟨0, 0, 0⟩
  | i + 1 => soloNext i (solo i)

theorem solo_last {j : Nat} (hj : 9 ≤ j) : solo j = solo 9 := by
  induction j, hj using Nat.le_induction with
  | base => rfl
  | succ j hj ih =>
      obtain ⟨k, rfl⟩ := Nat.exists_eq_add_of_le' hj
      exact ih

theorem solo_fair : FairRun solo := by
  have hfair {act : Sys 1 → Sys 1 → Prop} (h : ∀ s, ¬ act (solo 9) s) : WeaklyFair solo act := by
    intro i hi
    obtain ⟨s, hs⟩ := hi (max i 9) (le_max_left i 9)
    rw [solo_last (le_max_right i 9)] at hs
    exact absurd hs (h s)
  refine ⟨.init _, fun i => ?_, fun t => hfair fun s hs => ?_, hfair fun s hs => ?_⟩
  · match i with
    | 0 => exact Or.inr (.call (t := 0) 7 3 rfl)
    | 1 =>
        refine Or.inr (.malloc (t := 0) 5 rfl ?_)
        intro t
        obtain rfl := Subsingleton.elim t 0
        exact nofun
    | 2 => exact Or.inr (.fill (t := 0) rfl)
    | 3 => exact Or.inr (.enqueue (t := 0) rfl rfl)
    | 4 => exact Or.inr (.take rfl rfl rfl)
    | 5 => exact Or.inr (.run rfl)
    | 6 => exact Or.inr (.unlock rfl)
    | 7 => exact Or.inr (.acquire (t := 0) rfl rfl)
    | 8 => exact Or.inr (.free (t := 0) (f := ⟨0, 7, 3⟩) rfl)
    | i + 9 => exact Or.inl rfl
  · obtain rfl := Subsingleton.elim t 0
    exact hs.2.1 rfl
  · obtain ⟨hs, hne⟩ := hs
    cases hs with
    | take hw hq hk => cases hq
    | run hw => cases hw
    | unlock hw => cases hw
    | call index ms hu => exact hne rfl
    | mallocNull hu => exact hne rfl
    | malloc c hu hfree => exact hne rfl
    | fill hu => exact hne rfl
    | enqueue hu hk => exact hne rfl
    | acquire hu hd => exact hne rfl
    | free hu => exact hne rfl
    | poll hw hq hk => exact hne rfl
    | other c r hfree => exact hne rfl

theorem rpc_ocall_returns_solo : ∃ j, 1 ≤ j ∧
    (∀ k, 1 ≤ k → k ≤ j → ((solo k).clients 0).frame? = some ⟨0, 7, 3⟩) ∧ (solo (j + 1)).clients 0 = .idle ∧
      ((solo j).clients 0 = .called ⟨0, 7, 3⟩ ∨ 0 ∈ (solo (j + 1)).returned) := by
  refine rpc_ocall_returns (by decide) solo_fair (fun i => ?_) 1 rfl
  by_cases hi : 9 ≤ i
  · rw [solo_last hi]
    decide
  · have hlt : i < 9 := Nat.lt_of_not_le hi
    interval_cases i <;> decide

end Eleos.Rpc
