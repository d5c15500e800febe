import Eleos.Rpc.Lemmas.Ownership

/-!
# 要求の受け渡しの定理
-/

namespace Eleos.Rpc

variable {α : Type}

/-! ## 待ち行列が先入れ先出しであること -/

/-- 待ち行列が先入れ先出しであるのは、空きのある `enqueue` が `2^31 + 1` 回以下のとき、かつそのときに限る。
次の `enqueue` では、折り返して負になった `rear` の剰余が負になり、配列の外に書く。 -/
theorem fifoLaw_iff_accepted_le (cs : List (Call α)) : FifoLaw cs ↔ accepted 0 cs ≤ 2147483649 := by
  constructor
  · exact FifoLaw.accepted_le
  · intro hle
    -- 途中のどの状態でも不変条件が成り立ち、残りの回数は境目を越えない。
    have hinv : ∀ pre post s, cs = pre ++ post → Hist.new.exec pre = .ok s →
        s.Inv ∧ s.total post ≤ 2147483649 := by
      intro pre post s hcs hex
      subst hcs
      obtain ⟨hi, ht⟩ := Hist.Inv.new.exec post (by rw [Hist.total_new]; exact hle) hex
      exact ⟨hi, by rw [ht, Hist.total_new]; exact hle⟩
    constructor
    · intro pre c post s hcs hex
      obtain ⟨hi, hb⟩ := hinv pre (c :: post) s hcs hex
      cases c with
      | enqueue x =>
          by_cases hroom : s.outstanding = queueSize
          · simp [Hist.step, Queue.enqueue, hi.full_iff, hroom, Bind.bind, Except.bind]
          · simp only [Hist.total, accepted, hroom, ↓reduceIte] at hb
            obtain ⟨t, ht, _⟩ := hi.enqueue x hroom (by omega)
            rw [ht]
            simp
      | dequeue =>
          by_cases hne : s.outstanding = 0
          · rw [(hi.dequeue_none hne).2]
            simp
          · obtain ⟨x, q, hq, _⟩ := hi.dequeue (by simp only [Hist.total] at hb; omega) hne
            rw [Hist.step_dequeue hq]
            simp
    · intro pre post s hcs hex k hk
      obtain ⟨hi, _⟩ := hinv pre post s hcs hex
      have hget : s.dequeued[k]? = (s.enqueued.take s.dequeued.length)[k]? := by rw [← hi.taken]
      rw [List.getElem?_take_of_lt hk, List.getElem?_eq_getElem hk] at hget
      exact hget.symm
    · intro pre post s hcs hex
      obtain ⟨hi, hb⟩ := hinv pre _ s hcs hex
      by_cases hne : s.outstanding = 0
      · simp [(hi.dequeue_none hne).1, hne]
      · obtain ⟨x, q, hq, _⟩ := hi.dequeue (by simp only [Hist.total] at hb; omega) hne
        simp [hq, hne]
    · intro pre x post s hcs hex
      obtain ⟨hi, hb⟩ := hinv pre _ s hcs hex
      by_cases hroom : s.outstanding = queueSize
      · simp [Queue.enqueue, hi.full_iff, hroom]
      · simp only [Hist.total, accepted, hroom, ↓reduceIte] at hb
        obtain ⟨t, ht, _⟩ := hi.enqueue x hroom (by omega)
        have hne : s.queue.enqueue x ≠ .error .abort := by
          intro he
          simp [Hist.step, he, Bind.bind, Except.bind] at ht
        simp [hne, hroom]

/-- 要求を一つ加えて取り出すことを `2^31 + 1` 回くり返し、もう一つ加える列。 -/
def longRun : List (Call Nat) :=
  (List.replicate 2147483649 [Call.enqueue 0, Call.dequeue]).flatten ++ [Call.enqueue 0]

theorem accepted_pairs (k : Nat) (cs : List (Call Nat)) :
    accepted 0 ((List.replicate k [Call.enqueue 0, Call.dequeue]).flatten ++ cs) = k + accepted 0 cs := by
  induction k with
  | zero => simp
  | succ k ih =>
      simp only [List.replicate_succ, List.flatten_cons, List.cons_append, List.nil_append, accepted,
        queueSize, Nat.reduceEqDiff, ↓reduceIte, Nat.zero_add, Nat.sub_self, ih]
      omega

theorem peak_pairs (k : Nat) (cs : List (Call Nat)) (h : peak 0 cs ≤ 1) :
    peak 0 ((List.replicate k [Call.enqueue 0, Call.dequeue]).flatten ++ cs) ≤ 1 := by
  induction k with
  | zero => simpa using h
  | succ k ih =>
      simp only [List.replicate_succ, List.flatten_cons, List.cons_append, List.nil_append, peak]
      simp only [Nat.zero_add, Nat.sub_self]
      omega

/-- 未処理の要求が一つを超えない列でも、先入れ先出しは破れる。 -/
theorem longRun_not_fifoLaw : peak 0 longRun ≤ queueSize ∧ ¬ FifoLaw longRun := by
  constructor
  · exact Nat.le_trans (peak_pairs 2147483649 [.enqueue 0] (by decide)) (by decide)
  · intro hlaw
    have hle := hlaw.accepted_le
    rw [longRun, accepted_pairs] at hle
    simp [accepted, queueSize] at hle

/-! ## 要求がちょうど一度だけ処理されること -/

/-- `rpc_ocall` が `SGX_SUCCESS` を返したとき、その呼び出しの引数の組は、加えた順の位置で一度だけ処理されている。
ブロックを解放するとき、そのブロックは待ち行列にも作業スレッドの手元にもない。 -/
theorem rpc_ocall_handled_once {n : Nat} {s : Sys n} (hn : n ≤ queueSize) (hr : Reach s)
    (hlen : s.hist.enqueued.length < 2147483648) :
    (∀ c ∈ s.returned, ∃ (k : Nat) (f : Frame) (b : Nat), s.sent[k]? = some (f, b) ∧ f.call = c ∧
      s.calls[c]? = some (f.index, f.ms) ∧ s.handled[k]? = some (f.index, f.ms) ∧
      ∀ (j : Nat) (g : Frame) (d : Nat), s.sent[j]? = some (g, d) → g.call = c → j = k) ∧
    s.handled <+: s.sent.map (fun x => (x.1.index, x.1.ms)) ∧
    (∀ t f b, s.clients t = .locked f b → b ∉ s.queued ∧ s.worker.req? ≠ some b) ∧
    (∀ b, s.worker.req? = some b → ∃ t f, s.clients t = .waiting f b) ∧
    (∀ t f b, s.clients t = .filled f b → ∃ q, s.hist.queue.enqueue b = .ok q) := by
  have h := hr.inv hlen
  refine ⟨?_, ?_, ?_, ?_, ?_⟩
  · intro c hc
    obtain ⟨⟨f, b⟩, hx, hxc⟩ := h.returned c hc
    obtain ⟨k, hk⟩ := List.mem_iff_getElem?.mp hx
    have hklt : k < s.handled.length := by
      have := (List.getElem?_eq_some_iff.mp hk).1
      simp at this
      omega
    have hget : s.sent[k]? = some (f, b) := by rwa [List.getElem?_take_of_lt hklt] at hk
    refine ⟨k, f, b, hget, hxc, ?_, ?_, ?_⟩
    · rw [← hxc]
      exact h.sentCall _ (List.mem_of_getElem? hget)
    · rw [h.order, List.getElem?_map, hk]
      rfl
    · intro j g d hj hgc
      have hjlt : j < (s.sent.map fun x => x.1.call).length := by
        simpa using (List.getElem?_eq_some_iff.mp hj).1
      refine (List.getElem?_inj hjlt h.sentNodup).mp ?_
      rw [List.getElem?_map, List.getElem?_map, hj, hget]
      exact congrArg some (hgc.trans hxc.symm)
  · rw [h.order]
    exact (List.take_prefix _ _).map _
  · intro t f b ht
    have hb := h.not_inFlight (t := t) (b := b) (by rw [ht]; rfl) (by intro g hg; rw [ht] at hg; cases hg)
    simp only [Sys.inFlight, List.mem_append, not_or] at hb
    exact ⟨hb.2, fun hw => hb.1 (by rw [hw]; simp)⟩
  · intro b hb
    obtain ⟨t, f, ht, _⟩ := h.owned b (List.mem_append_left _ (by rw [hb]; simp))
    exact ⟨t, f, ht⟩
  · intro t f b ht
    obtain ⟨k, hk, _⟩ := h.hist.enqueue b (h.not_full hn ht) (by omega)
    obtain ⟨q, hq, _⟩ := bind_ok_iff.mp hk
    exact ⟨q, hq⟩

/-- 二つのスレッドが呼び、スレッド 0 は戻ったあと、解放したブロック 5 をもう一度使う。スレッド 1 の要求は番号 -1 である。 -/
theorem exists_recycled : ∃ s : Sys 2, Reach s ∧ s.returned = [0, 1, 2] ∧
    s.sent = [(⟨0, 7, 3⟩, 5), (⟨1, -1, 4⟩, 6), (⟨2, 9, 1⟩, 5)] ∧ s.handled = [(7, 3), (-1, 4), (9, 1)] ∧
    s.hist.enqueued.length = 3 := by
  have h₀ := Reach.init (n := 2) fun _ => ⟨0, 0, 0⟩
  have h₁ := h₀.step (.call (t := 0) 7 3 rfl)
  have h₂ := h₁.step (.malloc (t := 0) 5 rfl (by decide))
  have h₃ := h₂.step (.call (t := 1) (-1) 4 rfl)
  have h₄ := h₃.step (.fill (t := 0) rfl)
  have h₅ := h₄.step (.malloc (t := 1) 6 rfl (by decide))
  have h₆ := h₅.step (.enqueue (t := 0) rfl rfl)
  have h₇ := h₆.step (.take rfl rfl rfl)
  have h₈ := h₇.step (.fill (t := 1) rfl)
  have h₉ := h₈.step (.run rfl)
  have h₁₀ := h₉.step (.enqueue (t := 1) rfl rfl)
  have h₁₁ := h₁₀.step (.unlock rfl)
  have h₁₂ := h₁₁.step (.acquire (t := 0) rfl rfl)
  have h₁₃ := h₁₂.step (.take rfl rfl rfl)
  have h₁₄ := h₁₃.step (.free (t := 0) rfl)
  -- ブロック 5 は、解放されたあとで、もう一度確保される。
  have h₁₅ := h₁₄.step (.call (t := 0) 9 1 rfl)
  have h₁₆ := h₁₅.step (.malloc (t := 0) 5 rfl (by decide))
  have h₁₇ := h₁₆.step (.fill (t := 0) rfl)
  have h₁₈ := h₁₇.step (.enqueue (t := 0) rfl rfl)
  have h₁₉ := h₁₈.step (.run rfl)
  have h₂₀ := h₁₉.step (.unlock rfl)
  have h₂₁ := h₂₀.step (.acquire (t := 1) rfl rfl)
  have h₂₂ := h₂₁.step (.free (t := 1) rfl)
  have h₂₃ := h₂₂.step (.take rfl rfl rfl)
  have h₂₄ := h₂₃.step (.run rfl)
  have h₂₅ := h₂₄.step (.unlock rfl)
  have h₂₆ := h₂₅.step (.acquire (t := 0) rfl rfl)
  have h₂₇ := h₂₆.step (.free (t := 0) rfl)
  exact ⟨_, h₂₇, rfl, rfl, rfl, rfl⟩

theorem rpc_ocall_handled_once_recycled : ∃ s : Sys 2, Reach s ∧ s.returned = [0, 1, 2] ∧
    s.sent = [(⟨0, 7, 3⟩, 5), (⟨1, -1, 4⟩, 6), (⟨2, 9, 1⟩, 5)] ∧ s.handled = [(7, 3), (-1, 4), (9, 1)] ∧
    ∀ c ∈ s.returned, ∃ (k : Nat) (f : Frame) (b : Nat), s.sent[k]? = some (f, b) ∧ f.call = c ∧
      s.calls[c]? = some (f.index, f.ms) ∧ s.handled[k]? = some (f.index, f.ms) ∧
      ∀ (j : Nat) (g : Frame) (d : Nat), s.sent[j]? = some (g, d) → g.call = c → j = k := by
  obtain ⟨s, hr, hret, hsent, hdone, hlen⟩ := exists_recycled
  exact ⟨s, hr, hret, hsent, hdone, (rpc_ocall_handled_once (by decide) hr (by omega)).1⟩

end Eleos.Rpc
