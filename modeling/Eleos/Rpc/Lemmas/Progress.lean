import Eleos.Rpc.Fair
import Eleos.Rpc.Lemmas.Ownership

/-!
# 要求の受け渡しが進むこと

完了を待つスレッドのブロックは、待ち行列の先頭に向かって進み、作業スレッドの手を離れると `is_done` が 0 になる。
-/

namespace Eleos.Rpc

variable {n : Nat} {s s' : Sys n} {t : Fin n} {f : Frame} {b : Nat} {run : Nat → Sys n}

/-! ## 一つの遷移 -/

theorem Sys.setClient_next {u : Fin n} {c : Client} (h : Client.Next (s.clients u) c) (t : Fin n) :
    (s.setClient u c).clients t = s.clients t ∨ Client.Next (s.clients t) ((s.setClient u c).clients t) := by
  by_cases hu : t = u
  · subst hu
    exact Or.inr (by simpa [Sys.setClient] using h)
  · exact Or.inl (by simp [Sys.setClient, hu])

theorem Step.client (hs : Step s s') (t : Fin n) :
    s'.clients t = s.clients t ∨ Client.Next (s.clients t) (s'.clients t) := by
  cases hs with
  | call index ms ht => exact Sys.setClient_next (ht ▸ .call _) t
  | mallocNull ht => exact Sys.setClient_next (ht ▸ .mallocNull _) t
  | malloc b ht hb => exact Sys.setClient_next (ht ▸ .malloc _ _) t
  | fill ht => exact Sys.setClient_next (ht ▸ .fill _ _) t
  | enqueue ht hk => exact Sys.setClient_next (ht ▸ .enqueue _ _) t
  | acquire ht hd => exact Sys.setClient_next (ht ▸ .acquire _ _) t
  | free ht => exact Sys.setClient_next (ht ▸ .free _ _) t
  | poll hw hq hk => exact Or.inl rfl
  | take hw hq hk => exact Or.inl rfl
  | run hw => exact Or.inl rfl
  | unlock hw => exact Or.inl rfl
  | other b r hb => exact Or.inl rfl

/-- 作業スレッドと、待ち行列と作業スレッドの手元にあるブロックの列の変化。 -/
inductive Sys.Flow (s s' : Sys n) : Prop where
  | same (hw : s'.worker = s.worker) (hf : s'.inFlight = s.inFlight)
  | push (u : Fin n) (f : Frame) (b : Nat) (hu : s.clients u = .filled f b) (hw : s'.worker = s.worker)
      (hf : s'.inFlight = s.inFlight ++ [b])
  | take (b : Nat) (hw : s.worker = .polling) (hw' : s'.worker = .taken b) (hf : s'.inFlight = s.inFlight)
  | run (b : Nat) (hw : s.worker = .taken b) (hw' : s'.worker = .ran b) (hf : s'.inFlight = s.inFlight)
  | unlock (b : Nat) (hw : s.worker = .ran b) (hw' : s'.worker = .polling) (hf : s.inFlight = b :: s'.inFlight)

theorem Inv.inFlight_enqueue (h : Inv s) {k : Hist Nat} (hlen : s.hist.enqueued.length < 2147483648)
    (hk : s.hist.step (.enqueue b) = .ok k) :
    s.worker.req?.toList ++ k.enqueued.drop k.dequeued.length = s.inFlight ++ [b] := by
  obtain ⟨_, _, he, hd⟩ := h.hist.step_enqueue_inv (fun _ => hlen.le) hk
  rw [he, hd, List.drop_append_of_le_length h.hist.le, ← List.append_assoc]
  rfl

theorem Step.flow (h : Inv s) (hlen : s.hist.enqueued.length < 2147483648) (hs : Step s s') : s.Flow s' := by
  cases hs with
  | call index ms ht => exact .same rfl rfl
  | mallocNull ht => exact .same rfl rfl
  | malloc b ht hb => exact .same rfl rfl
  | fill ht => exact .same rfl rfl
  | acquire ht hd => exact .same rfl rfl
  | free ht => exact .same rfl rfl
  | other b r hb => exact .same rfl rfl
  | @enqueue t f b k ht hk =>
      exact .push t f b ht rfl (h.inFlight_enqueue hlen hk)
  | @poll k q hw hq hk =>
      refine .same rfl ?_
      obtain ⟨_, he, hd, _⟩ := h.hist.step_dequeue_inv (hlen.le.trans (by decide)) hq hk
      simp [Sys.inFlight, Sys.queued, he, hd]
  | @take k b q hw hq hk =>
      refine .take b hw rfl ?_
      obtain ⟨_, he, hd, hget⟩ := h.hist.step_dequeue_inv (hlen.le.trans (by decide)) hq hk
      obtain ⟨hlt, hb⟩ := List.getElem?_eq_some_iff.mp hget
      simp only [Sys.inFlight, Sys.queued, he, hd, hw, Worker.req?]
      rw [List.drop_eq_getElem_cons hlt, hb]
      simp
  | @run b hw => exact .run b hw rfl (by simp [Sys.inFlight, Sys.queued, hw, Worker.req?])
  | @unlock b hw => exact .unlock b hw rfl (by simp [Sys.inFlight, Sys.queued, hw, Worker.req?, Sys.setMem])

/-! ## 完了の印 -/

/-- 待っているスレッドのブロックは、作業スレッドの手を離れると、`is_done` が 0 である。 -/
def Sys.Done (s : Sys n) : Prop := ∀ t f b, s.clients t = .waiting f b → b ∉ s.inFlight → (s.mem b).isDone = 0

/-- ほかのスレッドの位置だけが変わり、待っているブロックの中身は変わらない。 -/
theorem Sys.Done.keep (hd : s.Done) (hclients : ∀ t f b, s'.clients t = .waiting f b → s.clients t = .waiting f b)
    (hflight : ∀ b, b ∈ s.inFlight → b ∈ s'.inFlight)
    (hmem : ∀ t f b, s'.clients t = .waiting f b → s'.mem b = s.mem b) : s'.Done := by
  intro t f b ht hb
  rw [hmem t f b ht]
  exact hd t f b (hclients t f b ht) fun h => hb (hflight b h)

theorem Sys.waiting_of_setClient {u : Fin n} {c : Client} (hc : ∀ g d, c ≠ .waiting g d)
    (h : (s.setClient u c).clients t = .waiting f b) : t ≠ u ∧ s.clients t = .waiting f b := by
  by_cases htu : t = u
  · subst htu
    exact absurd (by simpa [Sys.setClient] using h) (hc f b)
  · exact ⟨htu, by simpa [Sys.setClient, htu] using h⟩

/-- 作業スレッドが手を離すときのほかは、手元のブロックは減らない。 -/
theorem Sys.Flow.keeps (h : s.Flow s') :
    (∀ b ∈ s.inFlight, b ∈ s'.inFlight) ∨ ∃ b, s.worker = .ran b ∧ s.inFlight = b :: s'.inFlight := by
  cases h with
  | same hw hf => exact Or.inl fun b hb => hf ▸ hb
  | push u f c hu hw hf => exact Or.inl fun b hb => hf ▸ List.mem_append_left _ hb
  | take c hw hw' hf => exact Or.inl fun b hb => hf ▸ hb
  | run c hw hw' hf => exact Or.inl fun b hb => hf ▸ hb
  | unlock c hw hw' hf => exact Or.inr ⟨c, hw, hf⟩

theorem Sys.Done.init (mem : Nat → Request) : (Sys.init mem : Sys n).Done := by
  intro t f b ht
  cases ht

theorem Sys.Done.step (h : Inv s) (hd : s.Done) (hlen : s.hist.enqueued.length < 2147483648) (hs : Step s s') :
    s'.Done := by
  have hflow := (hs.flow h hlen).keeps
  cases hs with
  | call index ms ht =>
      refine hd.keep (fun u g c hu => ?_) (fun _ hb => hb) fun _ _ _ _ => rfl
      exact (Sys.waiting_of_setClient (by simp) hu).2
  | mallocNull ht =>
      refine hd.keep (fun u g c hu => ?_) (fun _ hb => hb) fun _ _ _ _ => rfl
      exact (Sys.waiting_of_setClient (by simp) hu).2
  | malloc d ht hfree =>
      refine hd.keep (fun u g c hu => ?_) (fun _ hb => hb) fun _ _ _ _ => rfl
      exact (Sys.waiting_of_setClient (by simp) hu).2
  | free ht =>
      refine hd.keep (fun u g c hu => ?_) (fun _ hb => hb) fun _ _ _ _ => rfl
      exact (Sys.waiting_of_setClient (by simp) hu).2
  | @fill v g d ht =>
      refine hd.keep (fun u g' c hu => ?_) (fun _ hb => hb) fun u g' c hu => ?_
      · exact (Sys.waiting_of_setClient (by simp) hu).2
      · obtain ⟨hne, hwait⟩ := Sys.waiting_of_setClient (by simp) hu
        have hcd : c ≠ d := by
          rintro rfl
          exact h.req_ne (by rw [ht]; rfl) hne (by rw [hwait]; rfl)
        exact Function.update_of_ne hcd ..
  | @acquire v g d ht hdone =>
      refine hd.keep (fun u g' c hu => ?_) (fun _ hb => hb) fun u g' c hu => ?_
      · exact (Sys.waiting_of_setClient (by simp) hu).2
      · obtain ⟨hne, hwait⟩ := Sys.waiting_of_setClient (by simp) hu
        have hcd : c ≠ d := by
          rintro rfl
          exact h.req_ne (by rw [ht]; rfl) hne (by rw [hwait]; rfl)
        exact Function.update_of_ne hcd ..
  | @enqueue v g d k ht hk =>
      intro u g' c hu hc
      have hout : c ∉ s.worker.req?.toList ++ k.enqueued.drop k.dequeued.length := hc
      rw [h.inFlight_enqueue hlen hk] at hout
      by_cases huv : u = v
      · subst huv
        obtain ⟨rfl, rfl⟩ : g = g' ∧ d = c := by simpa [Sys.setClient] using hu
        exact absurd (List.mem_append_right _ List.mem_cons_self) hout
      · refine hd u g' c (by simpa [Sys.setClient, huv] using hu) fun hb => hout ?_
        exact List.mem_append_left _ hb
  | poll hw hq hk =>
      refine hd.keep (fun _ _ _ hu => hu) (hflow.resolve_right ?_) fun _ _ _ _ => rfl
      rintro ⟨c, hran, _⟩
      cases hw.symm.trans hran
  | take hw hq hk =>
      refine hd.keep (fun _ _ _ hu => hu) (hflow.resolve_right ?_) fun _ _ _ _ => rfl
      rintro ⟨c, hran, _⟩
      cases hw.symm.trans hran
  | run hw =>
      refine hd.keep (fun _ _ _ hu => hu) (hflow.resolve_right ?_) fun _ _ _ _ => rfl
      rintro ⟨c, hran, _⟩
      cases hw.symm.trans hran
  | @unlock d hw =>
      intro u g c hu hc
      by_cases hcd : c = d
      · subst hcd
        simp [Sys.setMem]
      · have hmem : (s.mem c).isDone = 0 := by
          refine hd u g c hu fun hb => hc ?_
          have hfl : s.inFlight = d :: s.queued := by simp [Sys.inFlight, hw, Worker.req?]
          rw [hfl] at hb
          exact (List.mem_cons.mp hb).resolve_left hcd
        simpa [Sys.setMem, hcd] using hmem
  | other d r hfree =>
      refine hd.keep (fun _ _ _ hu => hu) (fun _ hb => hb) fun u g c hu => ?_
      have hcd : c ≠ d := by
        rintro rfl
        have hwait : s.clients u = .waiting g c := hu
        exact hfree u (by rw [hwait]; rfl)
      exact Function.update_of_ne hcd ..

theorem Reach.done (hr : Reach s) (hlen : s.hist.enqueued.length < 2147483648) : s.Done := by
  induction hr with
  | init mem => exact Sys.Done.init mem
  | step hr hs ih =>
      have hlt := Nat.lt_of_le_of_lt hs.enqueued_le hlen
      exact Sys.Done.step (hr.inv hlt) (ih hlt) hlt hs

/-! ## 待ち行列の中の位置 -/

/-- 作業スレッドが手を離すまでの段階の数。 -/
def Worker.phase : Worker → Nat
  | .polling => 2
  | .taken _ => 1
  | .ran _ => 0

/-- ブロック `b` が作業スレッドの手を離れるまでの段階の数。 -/
def Sys.distance (s : Sys n) (b : Nat) : Nat := 3 * s.inFlight.idxOf b + s.worker.phase

/-- ブロックは、作業スレッドが進むごとに近づき、先頭にあれば手を離れる。 -/
theorem Sys.Flow.distance (h : s.Flow s') (hnd : s.inFlight.Nodup) (hb : b ∈ s.inFlight) :
    b ∉ s'.inFlight ∨
      b ∈ s'.inFlight ∧ (s'.worker = s.worker ∧ s'.distance b = s.distance b ∨ s'.distance b < s.distance b) := by
  cases h with
  | same hw hf => exact Or.inr ⟨hf ▸ hb, Or.inl ⟨hw, by rw [Sys.distance, Sys.distance, hf, hw]⟩⟩
  | push u f c hu hw hf =>
      refine Or.inr ⟨hf ▸ List.mem_append_left _ hb, Or.inl ⟨hw, ?_⟩⟩
      rw [Sys.distance, Sys.distance, hf, hw, List.idxOf_append, if_pos hb]
  | take c hw hw' hf =>
      refine Or.inr ⟨hf ▸ hb, Or.inr ?_⟩
      rw [Sys.distance, Sys.distance, hf, hw, hw']
      exact Nat.lt_succ_self _
  | run c hw hw' hf =>
      refine Or.inr ⟨hf ▸ hb, Or.inr ?_⟩
      rw [Sys.distance, Sys.distance, hf, hw, hw']
      exact Nat.lt_succ_self _
  | unlock c hw hw' hf =>
      rw [hf, List.nodup_cons] at hnd
      rw [hf] at hb
      by_cases hbc : b = c
      · exact Or.inl (hbc ▸ hnd.1)
      · have hmem := (List.mem_cons.mp hb).resolve_left hbc
        refine Or.inr ⟨hmem, Or.inr ?_⟩
        rw [Sys.distance, Sys.distance, hf, hw, hw', List.idxOf_cons_ne _ (Ne.symm hbc)]
        simp only [Worker.phase]
        omega

/-- 処理を待つブロックがあれば、作業スレッドは進める。 -/
theorem Inv.worker_enabled (h : Inv s) (hlen : s.hist.enqueued.length < 2147483648) (hb : b ∈ s.inFlight) :
    ∃ s', s.workerAct s' := by
  cases hw : s.worker with
  | polling =>
      have hqueued : b ∈ s.queued := by simpa [Sys.inFlight, hw, Worker.req?] using hb
      have hne : s.hist.outstanding ≠ 0 := by
        rw [← s.queued_length]
        exact (List.length_pos_of_mem hqueued).ne'
      obtain ⟨c, q, hq, _⟩ := h.hist.dequeue (hlen.le.trans (by decide)) hne
      exact ⟨_, .take hw hq (Hist.step_dequeue hq), by simp [hw]⟩
  | taken c => exact ⟨_, .run hw, by simp [hw]⟩
  | ran c => exact ⟨_, .unlock hw, by simp [hw, Sys.setMem]⟩

/-- 位置が変わるのは、進んだスレッドだけである。 -/
theorem Sys.eq_of_setClient {u : Fin n} {c : Client} (h : (s.setClient u c).clients t ≠ s.clients t) : t = u := by
  by_contra htu
  exact h (by simp [Sys.setClient, htu])

/-- 完了の印が 0 でなければ、スレッドは待ちつづける。 -/
theorem Step.acquired (hs : Step s s') (ht : s.clients t = .waiting f b) (hne : s'.clients t ≠ s.clients t) :
    (s.mem b).isDone = 0 := by
  cases hs with
  | call index ms hu => exact nomatch (Sys.eq_of_setClient hne ▸ ht).symm.trans hu
  | mallocNull hu => exact nomatch (Sys.eq_of_setClient hne ▸ ht).symm.trans hu
  | malloc c hu hfree => exact nomatch (Sys.eq_of_setClient hne ▸ ht).symm.trans hu
  | fill hu => exact nomatch (Sys.eq_of_setClient hne ▸ ht).symm.trans hu
  | enqueue hu hk => exact nomatch (Sys.eq_of_setClient hne ▸ ht).symm.trans hu
  | acquire hu hd =>
      cases (Sys.eq_of_setClient hne ▸ ht).symm.trans hu
      exact hd
  | free hu => exact nomatch (Sys.eq_of_setClient hne ▸ ht).symm.trans hu
  | poll hw hq hk => exact absurd rfl hne
  | take hw hq hk => exact absurd rfl hne
  | run hw => exact absurd rfl hne
  | unlock hw => exact absurd rfl hne
  | other c r hfree => exact absurd rfl hne

/-! ## 進むこと -/

theorem FairRun.inv (h : FairRun run) (hlen : ∀ i, (run i).hist.enqueued.length < 2147483648) (i : Nat) :
    Reach (run i) ∧ Inv (run i) ∧ (run i).Done := by
  have hreach : Reach (run i) := by
    induction i with
    | zero => exact h.reach
    | succ i ih =>
        cases h.step i with
        | inl hs => rwa [hs]
        | inr hs => exact ih.step hs
  exact ⟨hreach, hreach.inv (hlen i), hreach.done (hlen i)⟩

/-- いつも進める位置 `c` からは、次の位置に進む。 -/
theorem FairRun.moves (h : FairRun run) (t : Fin n) (c : Client) (Q : Client → Prop) (hc : c ≠ .idle)
    (henabled : ∀ i, (run i).clients t = c → ∃ s, Step (run i) s ∧ s.clients t ≠ c)
    (hnext : ∀ d, Client.Next c d → Q d) :
    LeadsTo run (fun s => s.clients t = c) fun s => Q (s.clients t) := by
  refine LeadsTo.ensures (h.client t) (fun i hi => ?_) (fun i hi => ?_) fun i hi hact => ?_
  · cases h.step i with
    | inl hs => exact Or.inl (by rwa [hs])
    | inr hs =>
        cases hs.client t with
        | inl heq => exact Or.inl (heq.trans hi)
        | inr hn => exact Or.inr (hnext _ (hi ▸ hn))
  · obtain ⟨s, hs, hne⟩ := henabled i hi
    exact ⟨s, hs, by rwa [hi], by rwa [hi]⟩
  · exact hnext _ (hi ▸ (hact.1.client t).resolve_left hact.2.2)

theorem FairRun.called (h : FairRun run) (t : Fin n) (f : Frame) :
    LeadsTo run (fun s => s.clients t = .called f)
      fun s => s.clients t = .idle ∨ ∃ b, s.clients t = .allocated f b := by
  refine h.moves t (.called f) (fun c => c = .idle ∨ ∃ b, c = .allocated f b) nofun
    (fun i hi => ⟨_, .mallocNull hi, by simp [Sys.setClient]⟩) fun d hd => ?_
  cases hd with
  | mallocNull => exact Or.inl rfl
  | malloc _ b => exact Or.inr ⟨b, rfl⟩

theorem FairRun.allocated (h : FairRun run) (t : Fin n) (f : Frame) (b : Nat) :
    LeadsTo run (fun s => s.clients t = .allocated f b) fun s => s.clients t = .filled f b := by
  refine h.moves t (.allocated f b) (· = .filled f b) nofun
    (fun i hi => ⟨_, .fill hi, by simp [Sys.setClient, Sys.setMem]⟩) fun d hd => ?_
  cases hd
  rfl

theorem FairRun.filled (h : FairRun run) (hn : n ≤ queueSize)
    (hlen : ∀ i, (run i).hist.enqueued.length < 2147483648) (t : Fin n) (f : Frame) (b : Nat) :
    LeadsTo run (fun s => s.clients t = .filled f b) fun s => s.clients t = .waiting f b := by
  refine h.moves t (.filled f b) (· = .waiting f b) nofun (fun i hi => ?_) fun d hd => ?_
  · obtain ⟨_, hinv, _⟩ := h.inv hlen i
    obtain ⟨k, hk, _⟩ := hinv.hist.enqueue b (hinv.not_full hn hi) (hlen i).le
    exact ⟨_, .enqueue hi hk, by simp [Sys.setClient]⟩
  · cases hd
    rfl

theorem FairRun.locked (h : FairRun run) (t : Fin n) (f : Frame) (b : Nat) :
    LeadsTo run (fun s => s.clients t = .locked f b) fun s => s.clients t = .idle := by
  refine h.moves t (.locked f b) (· = .idle) nofun
    (fun i hi => ⟨_, .free hi, by simp [Sys.setClient]⟩) fun d hd => ?_
  cases hd
  rfl

/-- 処理を待つブロックを持つスレッドは、まだ待ちつづける。 -/
theorem Inv.stays (h : Inv s) (hs : Step s s') (ht : s.clients t = .waiting f b) (hb : b ∈ s.inFlight) :
    s'.clients t = .waiting f b := by
  by_contra hne
  have hz := hs.acquired ht (ht ▸ hne)
  obtain ⟨u, g, hu, hm⟩ := h.owned b hb
  rw [hm] at hz
  exact absurd hz one_ne_zero

/-- 待っているスレッドのブロックは、作業スレッドの手を離れたあと、加えなおされない。 -/
theorem Inv.released (h : Inv s) (hflow : s.Flow s') (ht : s.clients t = .waiting f b) (hb : b ∉ s.inFlight) :
    b ∉ s'.inFlight := by
  cases hflow with
  | same hw hf => rwa [hf]
  | take c hw hw' hf => rwa [hf]
  | run c hw hw' hf => rwa [hf]
  | unlock c hw hw' hf =>
      rw [hf] at hb
      exact fun hmem => hb (List.mem_cons_of_mem _ hmem)
  | push u g c hu hw hf =>
      rw [hf, List.mem_append, not_or]
      refine ⟨hb, fun hbc => ?_⟩
      obtain rfl := List.mem_singleton.mp hbc
      have htu : t ≠ u := by
        rintro rfl
        exact nomatch ht.symm.trans hu
      exact h.req_ne (by rw [hu]; rfl) htu (by rw [ht]; rfl)

/-- 待ち行列に加えたブロックは、いつか作業スレッドの手を離れる。 -/
theorem FairRun.inFlight (h : FairRun run) (hlen : ∀ i, (run i).hist.enqueued.length < 2147483648)
    (t : Fin n) (f : Frame) (b : Nat) :
    LeadsTo run (fun s => s.clients t = .waiting f b ∧ b ∈ s.inFlight)
      fun s => s.clients t = .waiting f b ∧ b ∉ s.inFlight := by
  refine LeadsTo.rank (fun s => s.distance b) fun k => ?_
  have hnext (i : Nat) (hs : Step (run i) (run (i + 1)))
      (hi : (run i).clients t = .waiting f b ∧ b ∈ (run i).inFlight) :=
    And.intro ((h.inv hlen i).2.1.stays hs hi.1 hi.2)
      ((hs.flow (h.inv hlen i).2.1 (hlen i)).distance (h.inv hlen i).2.1.nodup hi.2)
  refine LeadsTo.ensures h.worker (fun i hi => ?_) (fun i hi => ?_) fun i hi hact => ?_
  · cases h.step i with
    | inl hs => exact Or.inl (by rwa [hs])
    | inr hs =>
        obtain ⟨hstay, hdist⟩ := hnext i hs hi.1
        rcases hdist with hout | ⟨hin, ⟨_, heq⟩ | hlt⟩
        · exact Or.inr (Or.inl ⟨hstay, hout⟩)
        · exact Or.inl ⟨⟨hstay, hin⟩, heq.trans hi.2⟩
        · exact Or.inr (Or.inr ⟨⟨hstay, hin⟩, hi.2 ▸ hlt⟩)
  · exact (h.inv hlen i).2.1.worker_enabled (hlen i) hi.1.2
  · obtain ⟨hstay, hdist⟩ := hnext i hact.1 hi.1
    rcases hdist with hout | ⟨hin, ⟨heq, _⟩ | hlt⟩
    · exact Or.inl ⟨hstay, hout⟩
    · exact absurd heq hact.2
    · exact Or.inr ⟨⟨hstay, hin⟩, hi.2 ▸ hlt⟩

/-- 作業スレッドの手を離れると、スレッドはいつか `is_done` を取る。 -/
theorem FairRun.released (h : FairRun run) (hlen : ∀ i, (run i).hist.enqueued.length < 2147483648)
    (t : Fin n) (f : Frame) (b : Nat) :
    LeadsTo run (fun s => s.clients t = .waiting f b ∧ b ∉ s.inFlight) fun s => s.clients t = .locked f b := by
  have hmove {s s' : Sys n} (hs : Step s s') (ht : s.clients t = .waiting f b) (hne : s'.clients t ≠ s.clients t) :
      s'.clients t = .locked f b := by
    have hn := (hs.client t).resolve_left hne
    rw [ht] at hn
    generalize s'.clients t = c at hn
    cases hn
    rfl
  refine LeadsTo.ensures (h.client t) (fun i hi => ?_) (fun i hi => ?_) fun i hi hact => hmove hact.1 hi.1 hact.2.2
  · cases h.step i with
    | inl hs => exact Or.inl (by rwa [hs])
    | inr hs =>
        by_cases heq : (run (i + 1)).clients t = (run i).clients t
        · obtain ⟨_, hinv, _⟩ := h.inv hlen i
          exact Or.inl ⟨heq.trans hi.1, hinv.released (hs.flow hinv (hlen i)) hi.1 hi.2⟩
        · exact Or.inr (hmove hs hi.1 heq)
  · have hz := (h.inv hlen i).2.2 t f b hi.1 hi.2
    exact ⟨_, .acquire hi.1 hz, by simp [hi.1], by simp [Sys.setClient, Sys.setMem, hi.1]⟩

theorem FairRun.waiting (h : FairRun run) (hlen : ∀ i, (run i).hist.enqueued.length < 2147483648)
    (t : Fin n) (f : Frame) (b : Nat) :
    LeadsTo run (fun s => s.clients t = .waiting f b) fun s => s.clients t = .idle := by
  have hout := (h.released hlen t f b).trans (h.locked t f b)
  have hboth := ((h.inFlight hlen t f b).trans hout).or hout
  refine LeadsTo.trans (LeadsTo.of_imp fun i hi => ?_) hboth
  by_cases hb : b ∈ (run i).inFlight
  · exact Or.inl ⟨hi, hb⟩
  · exact Or.inr ⟨hi, hb⟩

/-- 呼び出しの途中のスレッドは、いつか戻る。 -/
theorem FairRun.returns (h : FairRun run) (hn : n ≤ queueSize)
    (hlen : ∀ i, (run i).hist.enqueued.length < 2147483648) (t : Fin n) :
    LeadsTo run (fun s => s.clients t ≠ .idle) fun s => s.clients t = .idle := by
  have hfilled (f : Frame) (b : Nat) := (h.filled hn hlen t f b).trans (h.waiting hlen t f b)
  have hallocated (f : Frame) (b : Nat) := (h.allocated t f b).trans (hfilled f b)
  have hcalled (f : Frame) := (h.called t f).trans ((LeadsTo.of_imp fun _ hi => hi).or (LeadsTo.ex (hallocated f)))
  intro i hi
  cases hc : (run i).clients t with
  | idle => exact absurd hc hi
  | called f => exact hcalled f i hc
  | allocated f b => exact hallocated f b i hc
  | filled f b => exact hfilled f b i hc
  | waiting f b => exact h.waiting hlen t f b i hc
  | locked f b => exact h.locked t f b i hc

end Eleos.Rpc
