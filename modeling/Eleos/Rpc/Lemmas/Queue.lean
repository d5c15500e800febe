import Eleos.Rpc.Queue

/-!
# 待ち行列の不変条件

番号が折り返さない間は、`Queue` は `Ring` と同じ並びを表す。境目は、`rear` が `2^31` 回目の加算を終えるところにある。
-/

namespace Eleos.Rpc

variable {α : Type}

/-! ## 添字 -/

theorem Queue.slot_of_le {n : Nat} (h : n ≤ 2147483648) :
    Queue.slot (int32 n) = .ok (n % queueSize) := by
  unfold Queue.slot queueSize
  by_cases hn : n < 2147483648
  · rw [int32_of_range (by omega) (by omega), Int.tmod_eq_emod_of_nonneg (by omega)]
    rw [if_pos (by omega)]
    congr 1
  · obtain rfl : n = 2147483648 := by omega
    decide

theorem Queue.slot_past : Queue.slot (int32 2147483649) = .error .outOfBounds := by decide

theorem int32_diff_eq_iff {m n k : Nat} (h : m ≤ n) (hn : n - m ≤ k) (hk : k < 2147483648) :
    int32 (int32 n - int32 m) = k ↔ n - m = k := by
  rw [int32_sub, int32_of_range (by omega) (by omega)]
  omega

theorem int32_eq_iff {m n : Nat} (h : m ≤ n) (hn : n - m < 2147483648) :
    int32 m = int32 n ↔ m = n := by
  unfold int32; omega

/-! ## 一つの呼び出し -/

theorem Queue.enqueue_ok {s : Queue α} {k : Nat} (x : α)
    (hfull : ¬ int32 (s.rear - s.front) = queueSize) (hslot : Queue.slot s.rear = .ok k) :
    s.enqueue x = .ok { s with q := Function.update s.q k (some x), rear := int32 (s.rear + 1) } := by
  simp only [Queue.enqueue, hfull, ↓reduceIte, hslot]
  rfl

theorem Queue.dequeue_ok {s : Queue α} {k : Nat} (hempty : ¬ s.front = s.rear)
    (hslot : Queue.slot s.front = .ok k) :
    s.dequeue = .ok (s.q k, { s with front := int32 (s.front + 1) }) := by
  simp only [Queue.dequeue, hempty, ↓reduceIte, hslot]
  rfl

theorem Hist.step_enqueue {s : Hist α} {x : α} {q : Queue α} (h : s.queue.enqueue x = .ok q) :
    s.step (.enqueue x) = .ok { s with queue := q, enqueued := s.enqueued ++ [x] } := by
  simp only [Hist.step, h]
  rfl

theorem Hist.step_dequeue {s : Hist α} {r : Option α} {q : Queue α} (h : s.queue.dequeue = .ok (r, q)) :
    s.step .dequeue = .ok { s with queue := q, dequeued := s.dequeued ++ r.toList } := by
  simp only [Hist.step, h]
  rfl

theorem Hist.step_enqueued_le {s s' : Hist α} {c : Call α} (h : s.step c = .ok s') :
    s.enqueued.length ≤ s'.enqueued.length := by
  cases c with
  | enqueue x =>
      obtain ⟨q, _, hq⟩ := bind_ok_iff.mp h
      cases hq
      simp
  | dequeue =>
      obtain ⟨q, _, hq⟩ := bind_ok_iff.mp h
      cases hq
      exact Nat.le_refl _

/-! ## 不変条件 -/

/-- 番号を折り返さない待ち行列。 -/
def Hist.ring (s : Hist α) : Ring (Option α) :=
  { size := queueSize, front := s.dequeued.length, rear := s.enqueued.length, q := s.queue.q }

/-- 待ち行列と呼び出しの履歴の関係。 -/
structure Hist.Inv (s : Hist α) : Prop where
  front : s.queue.front = int32 s.dequeued.length
  rear : s.queue.rear = int32 s.enqueued.length
  wf : s.ring.Wf
  taken : s.dequeued = s.enqueued.take s.dequeued.length
  rest : s.ring.toList = (s.enqueued.drop s.dequeued.length).map some

theorem Hist.Inv.new : (Hist.new : Hist α).Inv where
  front := (by decide : (0 : Int) = int32 0)
  rear := (by decide : (0 : Int) = int32 0)
  wf := ⟨Nat.le_refl _, Nat.zero_le _⟩
  taken := rfl
  rest := rfl

theorem Hist.Inv.le {s : Hist α} (h : s.Inv) : s.dequeued.length ≤ s.enqueued.length := h.wf.le

theorem Hist.Inv.room {s : Hist α} (h : s.Inv) : s.outstanding ≤ queueSize := h.wf.room

theorem Hist.Inv.full_iff {s : Hist α} (h : s.Inv) :
    int32 (s.queue.rear - s.queue.front) = queueSize ↔ s.outstanding = queueSize := by
  rw [h.rear, h.front]
  exact int32_diff_eq_iff h.le h.room (by decide)

theorem Hist.Inv.empty_iff {s : Hist α} (h : s.Inv) :
    s.queue.front = s.queue.rear ↔ s.outstanding = 0 := by
  have hle := h.le
  have hroom := h.room
  unfold Hist.outstanding queueSize at *
  rw [h.rear, h.front, int32_eq_iff hle (by omega)]
  omega

theorem Hist.Inv.enqueue {s : Hist α} (h : s.Inv) (x : α) (hroom : s.outstanding ≠ queueSize)
    (hn : s.enqueued.length ≤ 2147483648) :
    ∃ s', s.step (.enqueue x) = .ok s' ∧ s'.Inv ∧ s'.enqueued = s.enqueued ++ [x] ∧
      s'.dequeued = s.dequeued := by
  have hslot : Queue.slot s.queue.rear = .ok (s.enqueued.length % queueSize) := by
    rw [h.rear]; exact Queue.slot_of_le hn
  have hlt : s.enqueued.length - s.dequeued.length < queueSize := by
    have := h.room
    unfold Hist.outstanding at *
    omega
  have hfull : ¬ int32 (s.queue.rear - s.queue.front) = queueSize := by rwa [h.full_iff]
  refine ⟨_, Hist.step_enqueue (Queue.enqueue_ok x hfull hslot), ?_, rfl, rfl⟩
  constructor
  · exact h.front
  · simp only [List.length_append, List.length_singleton]
    rw [h.rear, int32_add_left]
    push_cast; rfl
  · have := h.wf.push (x := some x) hlt
    exact ⟨by simpa [Hist.ring, Ring.push] using this.le, by simpa [Hist.ring, Ring.push] using this.room⟩
  · have hle := h.le
    show s.dequeued = _
    rw [List.take_append_of_le_length hle]
    exact h.taken
  · have hpush := Ring.toList_push (x := some x) h.wf hlt
    rw [h.rest] at hpush
    show Ring.toList { size := queueSize, front := s.dequeued.length, rear := _, q := _ } = _
    rw [List.drop_append_of_le_length h.le, List.map_append]
    simpa [Hist.ring, Ring.push] using hpush

theorem Hist.Inv.dequeue {s : Hist α} (h : s.Inv) (hn : s.enqueued.length ≤ 2147483649)
    (hne : s.outstanding ≠ 0) :
    ∃ x q, s.queue.dequeue = .ok (some x, q) ∧
      Hist.Inv { s with queue := q, dequeued := s.dequeued ++ [x] } := by
  have hlt : s.dequeued.length < s.enqueued.length := by unfold Hist.outstanding at hne; omega
  have hslot : Queue.slot s.queue.front = .ok (s.dequeued.length % queueSize) := by
    rw [h.front]; exact Queue.slot_of_le (by omega)
  have hempty : ¬ s.queue.front = s.queue.rear := by rwa [h.empty_iff]
  have hpop : s.ring.toList = s.ring.top :: s.ring.pop.toList := Ring.toList_pop hlt
  have hdrop := List.drop_eq_getElem_cons hlt
  rw [h.rest, hdrop, List.map_cons] at hpop
  obtain ⟨htop, hpop⟩ := List.cons.inj hpop
  have htop' : s.queue.q (s.dequeued.length % queueSize) = some s.enqueued[s.dequeued.length] := htop.symm
  refine ⟨_, _, (Queue.dequeue_ok hempty hslot).trans (by rw [htop']), ?_⟩
  constructor
  · simp only [List.length_append, List.length_singleton]
    rw [h.front, int32_add_left]
    push_cast; rfl
  · exact h.rear
  · have := h.wf.pop hlt
    exact ⟨by simpa [Hist.ring, Ring.pop] using this.le, by simpa [Hist.ring, Ring.pop] using this.room⟩
  · simp only [List.length_append, List.length_singleton]
    rw [List.take_add_one, ← h.taken, List.getElem?_eq_getElem hlt]
    rfl
  · simp only [Hist.ring, List.length_append, List.length_singleton]
    exact hpop.symm

/-! ## 成功した呼び出しの結果 -/

theorem Hist.Inv.step_enqueue_inv {s s' : Hist α} {x : α} (h : s.Inv)
    (hn : s.outstanding ≠ queueSize → s.enqueued.length ≤ 2147483648) (hs : s.step (.enqueue x) = .ok s') :
    s.outstanding ≠ queueSize ∧ s'.Inv ∧ s'.enqueued = s.enqueued ++ [x] ∧ s'.dequeued = s.dequeued := by
  have hroom : s.outstanding ≠ queueSize := by
    intro hf
    simp [Hist.step, Queue.enqueue, h.full_iff, hf, Bind.bind, Except.bind] at hs
  obtain ⟨t, ht, hinv⟩ := h.enqueue x hroom (hn hroom)
  rw [hs, Except.ok.injEq] at ht
  subst ht
  exact ⟨hroom, hinv⟩

theorem Hist.Inv.dequeue_none {s : Hist α} (h : s.Inv) (hne : s.outstanding = 0) :
    s.queue.dequeue = .ok (none, s.queue) ∧ s.step .dequeue = .ok s := by
  have hq : s.queue.dequeue = .ok (none, s.queue) := by simp [Queue.dequeue, h.empty_iff, hne]
  exact ⟨hq, by simpa using Hist.step_dequeue hq⟩

theorem Hist.Inv.step_dequeue_inv {s s' : Hist α} {r : Option α} {q : Queue α} (h : s.Inv)
    (hn : s.enqueued.length ≤ 2147483649) (hq : s.queue.dequeue = .ok (r, q)) (hs : s.step .dequeue = .ok s') :
    s'.Inv ∧ s'.enqueued = s.enqueued ∧ s'.dequeued = s.dequeued ++ r.toList ∧
      s.enqueued[s.dequeued.length]? = r := by
  by_cases hne : s.outstanding = 0
  · obtain ⟨hq', hs'⟩ := h.dequeue_none hne
    rw [hs, Except.ok.injEq] at hs'
    rw [hq, Except.ok.injEq, Prod.mk.injEq] at hq'
    subst hs'
    obtain ⟨rfl, _⟩ := hq'
    have hle := h.le
    unfold Hist.outstanding at hne
    exact ⟨h, rfl, by simp, List.getElem?_eq_none (by omega)⟩
  · obtain ⟨x, q', hq', hinv⟩ := h.dequeue hn hne
    have hs' := Hist.step_dequeue hq'
    rw [hs, Except.ok.injEq] at hs'
    rw [hq, Except.ok.injEq, Prod.mk.injEq] at hq'
    subst hs'
    obtain ⟨rfl, _⟩ := hq'
    refine ⟨hinv, rfl, rfl, ?_⟩
    have htaken := hinv.taken
    simp only [List.length_append, List.length_singleton, List.take_add_one] at htaken
    rw [← h.taken] at htaken
    cases hget : s.enqueued[s.dequeued.length]? with
    | none => rw [hget] at htaken; simp at htaken
    | some y => rw [hget] at htaken; simpa using htaken.symm

/-! ## 呼び出しの列 -/

/-- `accepted` は、行った `enqueue` と残りの `accepted` の和である。 -/
def Hist.total (s : Hist α) (cs : List (Call α)) : Nat := s.enqueued.length + accepted s.outstanding cs

theorem Hist.total_new (cs : List (Call α)) : (Hist.new : Hist α).total cs = accepted 0 cs := by
  simp [Hist.total, Hist.outstanding, Hist.new]

theorem Hist.Inv.step {s s' : Hist α} {c : Call α} {l : List (Call α)} (h : s.Inv)
    (hb : s.total (c :: l) ≤ 2147483649) (hs : s.step c = .ok s') :
    s'.Inv ∧ s'.total l = s.total (c :: l) := by
  cases c with
  | enqueue x =>
      obtain ⟨hroom, hinv, he, hd⟩ := h.step_enqueue_inv (by
        intro hroom
        simp only [Hist.total, accepted, hroom, ↓reduceIte] at hb
        omega) hs
      refine ⟨hinv, ?_⟩
      have hle := h.le
      have hout : s'.outstanding = s.outstanding + 1 := by
        simp only [Hist.outstanding, he, hd, List.length_append, List.length_singleton]
        omega
      simp only [Hist.total, accepted, hroom, ↓reduceIte, hout, he, List.length_append,
        List.length_singleton]
      omega
  | dequeue =>
      by_cases hne : s.outstanding = 0
      · rw [(h.dequeue_none hne).2, Except.ok.injEq] at hs
        subst hs
        exact ⟨h, by simp [Hist.total, accepted, Hist.outstanding] at hne ⊢; simp [hne]⟩
      · obtain ⟨x, q, hq, hinv⟩ := h.dequeue (by simp only [Hist.total] at hb; omega) hne
        rw [Hist.step_dequeue hq, Except.ok.injEq] at hs
        subst hs
        refine ⟨hinv, ?_⟩
        simp only [Hist.total, accepted, Hist.outstanding, List.length_append, Option.toList_some,
          List.length_singleton, Nat.sub_sub]

theorem Hist.Inv.exec {s s' : Hist α} {pre : List (Call α)} (post : List (Call α)) (h : s.Inv)
    (hb : s.total (pre ++ post) ≤ 2147483649) (hs : s.exec pre = .ok s') :
    s'.Inv ∧ s'.total post = s.total (pre ++ post) := by
  induction pre generalizing s with
  | nil =>
      simp only [Hist.exec, Except.ok.injEq] at hs
      subst hs
      exact ⟨h, rfl⟩
  | cons c cs ih =>
      obtain ⟨t, ht, hrun⟩ := bind_ok_iff.mp hs
      obtain ⟨hinv, htot⟩ := h.step (l := cs ++ post) hb ht
      obtain ⟨hinv', htot'⟩ := ih hinv (by rw [htot]; exact hb) hrun
      exact ⟨hinv', htot'.trans htot⟩

/-- `total` が境目を越える列は、配列の外へのアクセスに達する。 -/
theorem Hist.Inv.exec_past {s : Hist α} {cs : List (Call α)} (h : s.Inv)
    (hn : s.enqueued.length ≤ 2147483649) (hb : 2147483649 < s.total cs) :
    ∃ pre c post s', cs = pre ++ c :: post ∧ s.exec pre = .ok s' ∧
      s'.step c = .error .outOfBounds := by
  induction cs generalizing s with
  | nil => simp [Hist.total, accepted] at hb; omega
  | cons c cs ih =>
      cases c with
      | enqueue x =>
          have hroom : s.outstanding ≠ queueSize := by
            intro hf
            simp only [Hist.total, accepted, hf, ↓reduceIte] at hb
            omega
          by_cases hlast : s.enqueued.length = 2147483649
          · refine ⟨[], .enqueue x, cs, s, rfl, rfl, ?_⟩
            have hslot : Queue.slot s.queue.rear = .error .outOfBounds := by
              rw [h.rear, hlast]; exact Queue.slot_past
            simp [Hist.step, Queue.enqueue, h.full_iff, hroom, hslot, Bind.bind, Except.bind]
          · obtain ⟨t, ht, hinv, he, hd⟩ := h.enqueue x hroom (by omega)
            have hle := h.le
            have hout : t.outstanding = s.outstanding + 1 := by
              simp only [Hist.outstanding, he, hd, List.length_append, List.length_singleton]
              omega
            obtain ⟨pre, d, post, s', rfl, hex, hd⟩ := ih hinv
              (by simp only [he, List.length_append, List.length_singleton]; omega)
              (by
                simp only [Hist.total, accepted, hroom, ↓reduceIte] at hb
                simp only [Hist.total, hout, he, List.length_append, List.length_singleton]
                omega)
            exact ⟨.enqueue x :: pre, d, post, s', rfl, by simp [Hist.exec, ht, hex, Bind.bind, Except.bind], hd⟩
      | dequeue =>
          have hok : ∃ t, s.step .dequeue = .ok t ∧ t.Inv ∧ t.enqueued = s.enqueued ∧
              t.outstanding = s.outstanding - 1 := by
            by_cases hne : s.outstanding = 0
            · exact ⟨s, (h.dequeue_none hne).2, h, rfl, by omega⟩
            · obtain ⟨x, q, hq, hinv⟩ := h.dequeue hn hne
              refine ⟨_, Hist.step_dequeue hq, hinv, rfl, ?_⟩
              simp only [Hist.outstanding, List.length_append, Option.toList_some, List.length_singleton,
                Nat.sub_sub]
          obtain ⟨t, ht, hinv, he, hout⟩ := hok
          obtain ⟨pre, d, post, s', rfl, hex, hd⟩ := ih hinv (by rw [he]; exact hn)
            (by simpa only [Hist.total, accepted, he, hout] using hb)
          exact ⟨.dequeue :: pre, d, post, s', rfl, by simp [Hist.exec, ht, hex, Bind.bind, Except.bind], hd⟩

theorem FifoLaw.accepted_le {cs : List (Call α)} (h : FifoLaw cs) : accepted 0 cs ≤ 2147483649 := by
  by_contra hgt
  obtain ⟨pre, c, post, s, hcs, hex, hout⟩ :=
    Hist.Inv.exec_past (Hist.Inv.new (α := α)) (Nat.zero_le _) (by rw [Hist.total_new]; exact Nat.lt_of_not_le hgt)
  exact h.inBounds pre c post s hcs hex hout

end Eleos.Rpc
