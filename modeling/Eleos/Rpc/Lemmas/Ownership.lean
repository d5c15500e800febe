import Mathlib.Data.Fintype.Card
import Mathlib.Data.Finset.Card
import Eleos.Rpc.System
import Eleos.Rpc.Lemmas.Queue

/-!
# 要求のブロックの持ち主

待ち行列と作業スレッドの手元にあるブロックは、それぞれ異なる一つのスレッドが持ち、そのスレッドは完了を待っている。
この不変条件を、すべての遷移が保つことを示す。
-/

namespace Eleos.Rpc

variable {n : Nat} {s s' : Sys n}

/-- 待ち行列と作業スレッドの手元にあるブロック。 -/
def Sys.inFlight (s : Sys n) : List Nat := s.worker.req?.toList ++ s.queued

/-- 作業スレッドが取り出したが、まだ処理していない要求の個数。 -/
def Worker.pending : Worker → Nat
  | .taken _ => 1
  | _ => 0

def Client.call? (c : Client) : Option Nat := c.frame?.map Frame.call

/-- まだ待ち行列に加えていない呼び出し。 -/
def Client.unsent? : Client → Option Nat
  | .called f | .allocated f _ | .filled f _ => some f.call
  | _ => none

theorem Client.call?_of_unsent? {c : Client} {k : Nat} (h : c.unsent? = some k) : c.call? = some k := by
  cases c with
  | called f => exact h
  | allocated f b => exact h
  | filled f b => exact h
  | _ => cases h

/-- 位置から定まる番号 `φ` を、二つのスレッドが同時に持つことはない。 -/
def Sys.Inj (s : Sys n) (φ : Client → Option Nat) : Prop :=
  ∀ t u b, φ (s.clients t) = some b → φ (s.clients u) = some b → t = u

/-- ブロックの持ち主と履歴についての不変条件。 -/
structure Inv (s : Sys n) : Prop where
  hist : s.hist.Inv
  nodup : s.inFlight.Nodup
  owned : ∀ b ∈ s.inFlight, ∃ t f, s.clients t = .waiting f b ∧ s.mem b = ⟨f.index, f.ms, 1⟩
  unique : s.Inj Client.req?
  frame : ∀ t f, (s.clients t).frame? = some f → s.calls[f.call]? = some (f.index, f.ms)
  distinct : s.Inj Client.call?
  filled : ∀ t f b, s.clients t = .filled f b → s.mem b = ⟨f.index, f.ms, 1⟩
  sentReq : s.sent.map Prod.snd = s.hist.enqueued
  sentCall : ∀ x ∈ s.sent, s.calls[x.1.call]? = some (x.1.index, x.1.ms)
  sentNodup : (s.sent.map fun x => x.1.call).Nodup
  unsent : ∀ t c, (s.clients t).unsent? = some c → c ∉ s.sent.map fun x => x.1.call
  waiting : ∀ t f b, s.clients t = .waiting f b → (f, b) ∈ s.sent
  current : ∀ x ∈ s.sent.drop s.handled.length, ∃ t, s.clients t = .waiting x.1 x.2
  count : s.handled.length + s.worker.pending = s.hist.dequeued.length
  order : s.handled = (s.sent.take s.handled.length).map fun x => (x.1.index, x.1.ms)
  last : ∀ b, s.worker = .taken b → s.hist.enqueued[s.handled.length]? = some b
  locked : ∀ t f b, s.clients t = .locked f b → (f, b) ∈ s.sent.take s.handled.length
  returned : ∀ c ∈ s.returned, ∃ x ∈ s.sent.take s.handled.length, x.1.call = c

theorem Inv.init (mem : Nat → Request) : Inv (Sys.init mem : Sys n) where
  hist := Hist.Inv.new
  nodup := List.nodup_nil
  owned := by intro b hb; cases hb
  unique := by intro t u b h; cases h
  frame := by intro t f h; cases h
  distinct := by intro t u b h; cases h
  filled := by intro t f b h; cases h
  sentReq := rfl
  sentCall := by intro x hx; cases hx
  sentNodup := List.nodup_nil
  unsent := by intro t f h; cases h
  waiting := by intro t f b h; cases h
  current := by intro x hx; cases hx
  count := rfl
  order := rfl
  last := by intro b h; cases h
  locked := by intro t f b h; cases h
  returned := by intro c hc; cases hc

/-! ## 一つのスレッドの位置の変更 -/

theorem Sys.forall_setClient {P : Fin n → Client → Prop} {t : Fin n} {c : Client}
    (h : ∀ u, u ≠ t → P u (s.clients u)) (hc : P t c) : ∀ u, P u ((s.setClient t c).clients u) := by
  intro u
  by_cases hu : u = t
  · subst hu; simpa [Sys.setClient] using hc
  · simpa [Sys.setClient, hu] using h u hu

theorem Sys.Inj.set {φ : Client → Option Nat} (h : s.Inj φ) {t : Fin n} {c : Client}
    (hc : ∀ b, φ c = some b → ∀ u, u ≠ t → φ (s.clients u) ≠ some b) : (s.setClient t c).Inj φ := by
  intro u v b hu hv
  by_cases hut : u = t
  · by_cases hvt : v = t
    · rw [hut, hvt]
    · subst hut
      simp only [Sys.setClient, Function.update_self, Function.update_of_ne hvt] at hu hv
      exact absurd hv (hc b hu v hvt)
  · by_cases hvt : v = t
    · subst hvt
      simp only [Sys.setClient, Function.update_self, Function.update_of_ne hut] at hu hv
      exact absurd hu (hc b hv u hut)
    · simp only [Sys.setClient, Function.update_of_ne hut, Function.update_of_ne hvt] at hu hv
      exact h u v b hu hv

/-- 番号が変わらなければ、重ならないことも変わらない。 -/
theorem Sys.Inj.keep {φ : Client → Option Nat} (h : s.Inj φ) {t : Fin n} {c : Client}
    (hc : φ c = φ (s.clients t)) : (s.setClient t c).Inj φ := by
  apply h.set
  intro b hb u hu hub
  exact hu (h u t b hub (by rw [← hc]; exact hb))

theorem Inv.owned_setClient (h : Inv s) {t : Fin n} {c : Client}
    (ht : ∀ f b, s.clients t = .waiting f b → b ∉ s.inFlight) :
    ∀ b ∈ s.inFlight, ∃ u f, (s.setClient t c).clients u = .waiting f b ∧ s.mem b = ⟨f.index, f.ms, 1⟩ := by
  intro b hb
  obtain ⟨u, f, hu, hm⟩ := h.owned b hb
  have hne : u ≠ t := by rintro rfl; exact ht f b hu hb
  exact ⟨u, f, by simpa [Sys.setClient, hne] using hu, hm⟩

/-! ## 待ち行列に空きがあること -/

/-- 待ち行列の中の要求は、それぞれ別のスレッドが待っているので、待っていないスレッドの数だけ空きがある。 -/
theorem Inv.queued_lt (h : Inv s) {t : Fin n} {f : Frame} {b : Nat} (ht : s.clients t = .filled f b) :
    s.queued.length < n := by
  classical
  have hnd : s.queued.Nodup := (List.nodup_append.mp h.nodup).2.1
  have hsub : s.queued.toFinset ⊆
      (Finset.univ.erase t).image fun u => ((s.clients u).req?).getD 0 := by
    intro c hc
    obtain ⟨u, g, hu, _⟩ := h.owned c (List.mem_append_right _ (List.mem_toFinset.mp hc))
    have hne : u ≠ t := by rintro rfl; rw [ht] at hu; cases hu
    exact Finset.mem_image.mpr ⟨u, Finset.mem_erase.mpr ⟨hne, Finset.mem_univ _⟩, by simp [hu, Client.req?]⟩
  have hcard := (Finset.card_le_card hsub).trans Finset.card_image_le
  rw [List.toFinset_card_of_nodup hnd, Finset.card_erase_of_mem (Finset.mem_univ t), Finset.card_univ,
    Fintype.card_fin] at hcard
  have := t.isLt
  omega

theorem Sys.queued_length (s : Sys n) : s.queued.length = s.hist.outstanding := by
  simp [Sys.queued, Hist.outstanding]

theorem Inv.not_full (h : Inv s) (hn : n ≤ queueSize) {t : Fin n} {f : Frame} {b : Nat}
    (ht : s.clients t = .filled f b) : s.hist.outstanding ≠ queueSize := by
  have := h.queued_lt ht
  rw [s.queued_length] at this
  omega

/-! ## まだ処理していない要求 -/

/-- 加えたがまだ処理していない要求のブロックは、待ち行列か作業スレッドの手元にある。 -/
theorem Inv.mem_inFlight (h : Inv s) {x : Frame × Nat} (hx : x ∈ s.sent.drop s.handled.length) :
    x.2 ∈ s.inFlight := by
  obtain ⟨j, hj⟩ := List.mem_iff_getElem?.mp hx
  rw [List.getElem?_drop] at hj
  have henq : s.hist.enqueued[s.handled.length + j]? = some x.2 := by
    rw [← h.sentReq, List.getElem?_map, hj]
    rfl
  by_cases hd : s.hist.dequeued.length ≤ s.handled.length + j
  · apply List.mem_append_right
    rw [Sys.queued, List.mem_iff_getElem?]
    exact ⟨s.handled.length + j - s.hist.dequeued.length, by
      rw [List.getElem?_drop, Nat.add_sub_cancel' hd]; exact henq⟩
  · have hc := h.count
    cases hw : s.worker with
    | polling => simp only [hw, Worker.pending] at hc; omega
    | ran c => simp only [hw, Worker.pending] at hc; omega
    | taken c =>
        simp only [hw, Worker.pending] at hc
        obtain rfl : j = 0 := by omega
        have := h.last c hw
        rw [Nat.add_zero, this, Option.some.injEq] at henq
        simp [Sys.inFlight, hw, Worker.req?, henq]

theorem Inv.mem_take (h : Inv s) {x : Frame × Nat} (hx : x ∈ s.sent) (hb : x.2 ∉ s.inFlight) :
    x ∈ s.sent.take s.handled.length := by
  rw [← List.take_append_drop s.handled.length s.sent] at hx
  rcases List.mem_append.mp hx with hx | hx
  · exact hx
  · exact absurd (h.mem_inFlight hx) hb

theorem Inv.current_setClient (h : Inv s) {t : Fin n} {c : Client}
    (ht : ∀ f b, s.clients t = .waiting f b → b ∉ s.inFlight) :
    ∀ x ∈ s.sent.drop s.handled.length, ∃ u, (s.setClient t c).clients u = .waiting x.1 x.2 := by
  intro x hx
  obtain ⟨u, hu⟩ := h.current x hx
  have hne : u ≠ t := by rintro rfl; exact ht _ _ hu (h.mem_inFlight hx)
  exact ⟨u, by simpa [Sys.setClient, hne] using hu⟩

/-- 確保したスレッドは、ブロックが書き換わらないかぎり完了を待つ。 -/
theorem Inv.owner_eq (h : Inv s) {t u : Fin n} {b : Nat} {f : Frame}
    (ht : (s.clients t).req? = some b) (hu : s.clients u = .waiting f b) : t = u :=
  h.unique t u b ht (by rw [hu]; rfl)

theorem Inv.not_inFlight (h : Inv s) {t : Fin n} {b : Nat} (ht : (s.clients t).req? = some b)
    (hw : ∀ f, s.clients t ≠ .waiting f b) : b ∉ s.inFlight := by
  intro hb
  obtain ⟨u, f, hu, _⟩ := h.owned b hb
  obtain rfl := h.owner_eq ht hu
  exact hw f hu

/-! ## スレッドの遷移 -/

theorem Inv.call (h : Inv s) {t : Fin n} (index : Int) (ms : Nat) (ht : s.clients t = .idle) :
    Inv { s.setClient t (.called ⟨s.calls.length, index, ms⟩) with calls := s.calls ++ [(index, ms)] } where
  hist := h.hist
  nodup := h.nodup
  owned := h.owned_setClient (by intro f b hw; rw [ht] at hw; cases hw)
  unique := h.unique.set (by intro b hb; cases hb)
  frame := Sys.forall_setClient
    (P := fun _ c => ∀ f, c.frame? = some f → (s.calls ++ [(index, ms)])[f.call]? = some (f.index, f.ms))
    (by
      intro u _ f hf
      have hget := h.frame u f hf
      rw [List.getElem?_append_left (List.getElem?_eq_some_iff.mp hget).1]
      exact hget)
    (by rintro f ⟨⟩; simp)
  distinct := h.distinct.set (by
    rintro b ⟨⟩ u _ hu
    obtain ⟨f, hf, hc⟩ := Option.map_eq_some_iff.mp hu
    have hlt := (List.getElem?_eq_some_iff.mp (h.frame u f hf)).1
    rw [hc] at hlt
    exact Nat.lt_irrefl _ hlt)
  filled := Sys.forall_setClient (P := fun _ c => ∀ f b, c = .filled f b → s.mem b = ⟨f.index, f.ms, 1⟩)
    (fun u _ => h.filled u) (by intro f b hf; cases hf)
  sentReq := h.sentReq
  sentCall := by
    intro x hx
    have hget := h.sentCall x hx
    rw [List.getElem?_append_left (List.getElem?_eq_some_iff.mp hget).1]
    exact hget
  sentNodup := h.sentNodup
  unsent := Sys.forall_setClient
    (P := fun _ c => ∀ k, c.unsent? = some k → k ∉ s.sent.map fun x => x.1.call) (fun u _ => h.unsent u)
    (by
      rintro k ⟨⟩ hk
      obtain ⟨x, hx, hxc⟩ := List.mem_map.mp hk
      have hlt := (List.getElem?_eq_some_iff.mp (h.sentCall x hx)).1
      rw [hxc] at hlt
      exact Nat.lt_irrefl _ hlt)
  waiting := Sys.forall_setClient (P := fun _ c => ∀ f b, c = .waiting f b → (f, b) ∈ s.sent)
    (fun u _ => h.waiting u) (by intro f b hf; cases hf)
  current := h.current_setClient (by intro f b hw; rw [ht] at hw; cases hw)
  count := h.count
  order := h.order
  last := h.last
  locked := Sys.forall_setClient
    (P := fun _ c => ∀ f b, c = .locked f b → (f, b) ∈ s.sent.take s.handled.length)
    (fun u _ => h.locked u) (by intro f b hf; cases hf)
  returned := h.returned

/-- 待ち行列にも履歴にも触れない遷移。ブロックの中身の変更も、待っているスレッドのブロックには及ばない。 -/
theorem Inv.local (h : Inv s) {t : Fin n} {c : Client} {m : Nat → Request}
    (ht : ∀ f b, s.clients t = .waiting f b → b ∉ s.inFlight)
    (hm : ∀ b ∈ s.inFlight, m b = s.mem b)
    (hmf : ∀ u f b, u ≠ t → s.clients u = .filled f b → m b = s.mem b)
    (hreq : ∀ b, c.req? = some b → ∀ u, u ≠ t → (s.clients u).req? ≠ some b)
    (hframe : ∀ f, c.frame? = some f → (s.clients t).frame? = some f)
    (hcf : ∀ f b, c = .filled f b → m b = ⟨f.index, f.ms, 1⟩)
    (hun : ∀ k, c.unsent? = some k → (s.clients t).unsent? = some k)
    (hw : ∀ f b, c = .waiting f b → (f, b) ∈ s.sent)
    (hl : ∀ f b, c = .locked f b → (f, b) ∈ s.sent.take s.handled.length) :
    Inv { s.setClient t c with mem := m } where
  hist := h.hist
  nodup := h.nodup
  owned := by
    intro b hb
    obtain ⟨u, f, hu, hmem⟩ := h.owned_setClient ht b hb
    exact ⟨u, f, hu, (hm b hb).trans hmem⟩
  unique := h.unique.set hreq
  frame := Sys.forall_setClient (P := fun _ c => ∀ f, c.frame? = some f → s.calls[f.call]? = some (f.index, f.ms))
    (fun u _ => h.frame u) (fun f hf => h.frame t f (hframe f hf))
  distinct := h.distinct.set (by
    intro k hk u hu huk
    obtain ⟨f, hf, hfk⟩ := Option.map_eq_some_iff.mp hk
    have htk : (s.clients t).call? = some k := by rw [Client.call?, hframe f hf, Option.map_some, hfk]
    exact hu (h.distinct u t k huk htk))
  filled := Sys.forall_setClient (P := fun _ c => ∀ f b, c = .filled f b → m b = ⟨f.index, f.ms, 1⟩)
    (fun u hut f b hu => (hmf u f b hut hu).trans (h.filled u f b hu)) hcf
  sentReq := h.sentReq
  sentCall := h.sentCall
  sentNodup := h.sentNodup
  unsent := Sys.forall_setClient
    (P := fun _ c => ∀ k, c.unsent? = some k → k ∉ s.sent.map fun x => x.1.call)
    (fun u _ => h.unsent u) (fun k hk => h.unsent t k (hun k hk))
  waiting := Sys.forall_setClient (P := fun _ c => ∀ f b, c = .waiting f b → (f, b) ∈ s.sent)
    (fun u _ => h.waiting u) hw
  current := h.current_setClient ht
  count := h.count
  order := h.order
  last := h.last
  locked := Sys.forall_setClient
    (P := fun _ c => ∀ f b, c = .locked f b → (f, b) ∈ s.sent.take s.handled.length)
    (fun u _ => h.locked u) hl
  returned := h.returned

theorem Inv.mallocNull (h : Inv s) {t : Fin n} {f : Frame} (ht : s.clients t = .called f) :
    Inv (s.setClient t .idle) :=
  h.local (m := s.mem)
    (by intro f b hw; rw [ht] at hw; cases hw) (fun _ _ => rfl) (fun _ _ _ _ _ => rfl)
    (by intro b hb; cases hb) (by intro f hf; cases hf) (by intro f b hf; cases hf)
    (by intro k hk; cases hk) (by intro f b hf; cases hf) (by intro f b hf; cases hf)

theorem Inv.malloc (h : Inv s) {t : Fin n} {f : Frame} {b : Nat} (ht : s.clients t = .called f)
    (hb : s.Unused b) : Inv (s.setClient t (.allocated f b)) :=
  h.local (m := s.mem)
    (by intro f b hw; rw [ht] at hw; cases hw) (fun _ _ => rfl) (fun _ _ _ _ _ => rfl)
    (by rintro c ⟨⟩ u _; exact hb u) (by rintro g ⟨⟩; rw [ht]; rfl) (by intro f b hf; cases hf)
    (by rintro k ⟨⟩; rw [ht]; rfl) (by intro f b hf; cases hf) (by intro f b hf; cases hf)

/-- 確保したスレッドのほかは、ブロック `b` を持たない。 -/
theorem Inv.req_ne (h : Inv s) {t u : Fin n} {b : Nat} (ht : (s.clients t).req? = some b) (hut : u ≠ t) :
    (s.clients u).req? ≠ some b := fun hu => hut (h.unique u t b hu ht)

/-- 手元にないブロックの書き換えは、手元のブロックに及ばない。 -/
theorem Sys.update_inFlight {b c : Nat} {r : Request} (hb : b ∉ s.inFlight) (hc : c ∈ s.inFlight) :
    Function.update s.mem b r c = s.mem c := by
  rw [Function.update_of_ne]
  rintro rfl
  exact hb hc

theorem Inv.update_filled (h : Inv s) {t u : Fin n} {b c : Nat} {f : Frame} {r : Request}
    (ht : (s.clients t).req? = some b) (hut : u ≠ t) (hu : s.clients u = .filled f c) :
    Function.update s.mem b r c = s.mem c := by
  rw [Function.update_of_ne]
  rintro rfl
  exact h.req_ne ht hut (by rw [hu]; rfl)

theorem Inv.fill (h : Inv s) {t : Fin n} {f : Frame} {b : Nat} (ht : s.clients t = .allocated f b) :
    Inv ((s.setClient t (.filled f b)).setMem b ⟨f.index, f.ms, 1⟩) := by
  have hreq : (s.clients t).req? = some b := by rw [ht]; rfl
  have hb : b ∉ s.inFlight := h.not_inFlight hreq (by intro g hg; rw [ht] at hg; cases hg)
  refine h.local (m := Function.update s.mem b ⟨f.index, f.ms, 1⟩)
    (by intro f b hw; rw [ht] at hw; cases hw) (fun _ => Sys.update_inFlight hb)
    (fun _ _ _ hut hu => h.update_filled hreq hut hu) ?_ (by rintro g ⟨⟩; rw [ht]; rfl)
    (by rintro g c ⟨⟩; simp) (by rintro k ⟨⟩; rw [ht]; rfl) (by intro f b hf; cases hf)
    (by intro f b hf; cases hf)
  rintro c ⟨⟩ u hut
  exact h.req_ne hreq hut

theorem Inv.acquire (h : Inv s) {t : Fin n} {f : Frame} {b : Nat} (ht : s.clients t = .waiting f b)
    (hdone : (s.mem b).isDone = 0) :
    Inv ((s.setClient t (.locked f b)).setMem b { s.mem b with isDone := 1 }) := by
  have hreq : (s.clients t).req? = some b := by rw [ht]; rfl
  -- 手元にあるブロックの `is_done` は 1 なので、`b` はもう手元にない。
  have hb : b ∉ s.inFlight := by
    intro hb
    obtain ⟨u, g, _, hm⟩ := h.owned b hb
    rw [hm] at hdone
    cases hdone
  refine h.local (m := Function.update s.mem b { s.mem b with isDone := 1 })
    (by intro g c hw; rw [ht] at hw; cases hw; exact hb) (fun _ => Sys.update_inFlight hb)
    (fun _ _ _ hut hu => h.update_filled hreq hut hu) ?_ (by rintro g ⟨⟩; rw [ht]; rfl)
    (by intro f b hf; cases hf) (by intro k hk; cases hk) (by intro f b hf; cases hf) ?_
  · rintro c ⟨⟩ u hut
    exact h.req_ne hreq hut
  · rintro g c ⟨⟩
    exact h.mem_take (h.waiting t f b ht) hb

theorem Inv.free (h : Inv s) {t : Fin n} {f : Frame} {b : Nat} (ht : s.clients t = .locked f b) :
    Inv { s.setClient t .idle with returned := s.returned ++ [f.call] } := by
  have h' : Inv (s.setClient t .idle) := h.local (m := s.mem)
    (by intro f b hw; rw [ht] at hw; cases hw) (fun _ _ => rfl) (fun _ _ _ _ _ => rfl)
    (by intro b hb; cases hb) (by intro f hf; cases hf) (by intro f b hf; cases hf)
    (by intro k hk; cases hk) (by intro f b hf; cases hf) (by intro f b hf; cases hf)
  exact { h' with
    returned := by
      intro c hc
      rcases List.mem_append.mp hc with hc | hc
      · exact h.returned c hc
      · rw [List.mem_singleton] at hc
        exact ⟨_, h.locked t f b ht, hc.symm⟩ }

theorem Inv.enqueue (h : Inv s) {t : Fin n} {f : Frame} {b : Nat} {k : Hist Nat}
    (hlen : s.hist.enqueued.length < 2147483648) (ht : s.clients t = .filled f b)
    (hk : s.hist.step (.enqueue b) = .ok k) :
    Inv { s.setClient t (.waiting f b) with hist := k, sent := s.sent ++ [(f, b)] } := by
  have hreq : (s.clients t).req? = some b := by rw [ht]; rfl
  have hb : b ∉ s.inFlight := h.not_inFlight hreq (by intro g hg; rw [ht] at hg; cases hg)
  obtain ⟨_, hinv, he, hd⟩ := h.hist.step_enqueue_inv (fun _ => by omega) hk
  have hsl : s.handled.length ≤ s.sent.length := by
    have := h.count
    have hle := h.hist.le
    rw [← h.sentReq, List.length_map] at hle
    omega
  have hfl : s.worker.req?.toList ++ k.enqueued.drop k.dequeued.length = s.inFlight ++ [b] := by
    rw [he, hd, List.drop_append_of_le_length h.hist.le]
    simp [Sys.inFlight, Sys.queued]
  have htake : (s.sent ++ [(f, b)]).take s.handled.length = s.sent.take s.handled.length :=
    List.take_append_of_le_length hsl
  have hcall : f.call ∉ s.sent.map fun x => x.1.call := h.unsent t f.call (by rw [ht]; rfl)
  constructor
  · exact hinv
  · show (s.worker.req?.toList ++ k.enqueued.drop k.dequeued.length).Nodup
    rw [hfl]
    exact List.nodup_append.mpr ⟨h.nodup, List.nodup_singleton b, by
      rintro c hc d hd rfl
      rw [List.mem_singleton] at hd
      exact hb (hd ▸ hc)⟩
  · intro c hc
    have hc : c ∈ s.inFlight ++ [b] := hfl ▸ hc
    rcases List.mem_append.mp hc with hc | hc
    · exact h.owned_setClient (by intro g c hw; rw [ht] at hw; cases hw) c hc
    · rw [List.mem_singleton] at hc
      subst hc
      exact ⟨t, f, by simp [Sys.setClient], h.filled t f c ht⟩
  · exact h.unique.keep (by rw [ht]; rfl)
  · exact Sys.forall_setClient (P := fun _ c => ∀ f, c.frame? = some f → s.calls[f.call]? = some (f.index, f.ms))
      (fun u _ => h.frame u) (by rintro g ⟨⟩; exact h.frame t f (by rw [ht]; rfl))
  · exact h.distinct.keep (by rw [ht]; rfl)
  · exact Sys.forall_setClient (P := fun _ c => ∀ f b, c = .filled f b → s.mem b = ⟨f.index, f.ms, 1⟩)
      (fun u _ => h.filled u) (by intro f b hf; cases hf)
  · show (s.sent ++ [(f, b)]).map Prod.snd = k.enqueued
    rw [he, List.map_append, h.sentReq]
    rfl
  · intro x hx
    rcases List.mem_append.mp hx with hx | hx
    · exact h.sentCall x hx
    · rw [List.mem_singleton] at hx
      subst hx
      exact h.frame t f (by rw [ht]; rfl)
  · simp only [List.map_append, List.map_cons, List.map_nil]
    exact List.nodup_append.mpr ⟨h.sentNodup, List.nodup_singleton _, by
      rintro c hc d hd rfl
      rw [List.mem_singleton] at hd
      exact hcall (hd ▸ hc)⟩
  · refine Sys.forall_setClient
      (P := fun _ c => ∀ k, c.unsent? = some k → k ∉ (s.sent ++ [(f, b)]).map fun x => x.1.call)
      ?_ ?_
    · intro u hut c hc hmem
      rw [List.map_append, List.mem_append] at hmem
      rcases hmem with hmem | hmem
      · exact h.unsent u c hc hmem
      · rw [List.map_cons, List.map_nil, List.mem_singleton] at hmem
        exact hut (h.distinct u t c (Client.call?_of_unsent? hc) (by rw [ht, hmem]; rfl))
    · intro c hc
      cases hc
  · refine Sys.forall_setClient (P := fun _ c => ∀ g d, c = .waiting g d → (g, d) ∈ s.sent ++ [(f, b)]) ?_ ?_
    · intro u _ g d hu
      exact List.mem_append_left _ (h.waiting u g d hu)
    · rintro g d ⟨⟩
      simp
  · show ∀ x ∈ (s.sent ++ [(f, b)]).drop s.handled.length, _
    rw [List.drop_append_of_le_length hsl]
    intro x hx
    rcases List.mem_append.mp hx with hx | hx
    · exact h.current_setClient (by intro g c hw; rw [ht] at hw; cases hw) x hx
    · rw [List.mem_singleton] at hx
      subst hx
      exact ⟨t, by simp [Sys.setClient]⟩
  · show s.handled.length + s.worker.pending = k.dequeued.length
    rw [hd]
    exact h.count
  · show s.handled = ((s.sent ++ [(f, b)]).take s.handled.length).map _
    rw [htake]
    exact h.order
  · intro c hc
    show k.enqueued[s.handled.length]? = some c
    have hget := h.last c hc
    rw [he, List.getElem?_append_left (List.getElem?_eq_some_iff.mp hget).1]
    exact hget
  · show ∀ u g d, _ → (g, d) ∈ (s.sent ++ [(f, b)]).take s.handled.length
    rw [htake]
    exact Sys.forall_setClient
      (P := fun _ c => ∀ f b, c = .locked f b → (f, b) ∈ s.sent.take s.handled.length)
      (fun u _ => h.locked u) (by intro f b hf; cases hf)
  · show ∀ c ∈ s.returned, ∃ x ∈ (s.sent ++ [(f, b)]).take s.handled.length, x.1.call = c
    rw [htake]
    exact h.returned

/-! ## 作業スレッドの遷移 -/

theorem Inv.dequeue (h : Inv s) {r : Option Nat} {q : Queue Nat} {k : Hist Nat} {w : Worker}
    (hlen : s.hist.enqueued.length < 2147483648) (hw : s.worker = .polling)
    (hq : s.hist.queue.dequeue = .ok (r, q)) (hk : s.hist.step .dequeue = .ok k)
    (hr : w.req? = r) (hp : w.pending = r.toList.length) :
    Inv { s with hist := k, worker := w } := by
  obtain ⟨hinv, he, hd, hget⟩ := h.hist.step_dequeue_inv (by omega) hq hk
  have hfl : w.req?.toList ++ k.enqueued.drop k.dequeued.length = s.inFlight := by
    rw [hr, he, hd]
    simp only [Sys.inFlight, Sys.queued, hw, Worker.req?, Option.toList_none, List.nil_append]
    cases r with
    | none =>
        simp only [Option.toList_none, List.nil_append, List.append_nil]
    | some b =>
        obtain ⟨hlt, hb⟩ := List.getElem?_eq_some_iff.mp hget
        rw [List.drop_eq_getElem_cons hlt, hb]
        simp
  have hc := h.count
  rw [hw] at hc
  constructor
  · exact hinv
  · show (w.req?.toList ++ k.enqueued.drop k.dequeued.length).Nodup
    rw [hfl]
    exact h.nodup
  · show ∀ b ∈ w.req?.toList ++ k.enqueued.drop k.dequeued.length, _
    rw [hfl]
    exact h.owned
  · exact h.unique
  · exact h.frame
  · exact h.distinct
  · exact h.filled
  · exact h.sentReq.trans he.symm
  · exact h.sentCall
  · exact h.sentNodup
  · exact h.unsent
  · exact h.waiting
  · exact h.current
  · show s.handled.length + w.pending = k.dequeued.length
    rw [hd, hp, List.length_append, ← hc]
    rfl
  · exact h.order
  · intro b hb
    have hb : w = .taken b := hb
    show k.enqueued[s.handled.length]? = some b
    rw [he, show s.handled.length = s.hist.dequeued.length from hc, hget, ← hr, hb]
    rfl
  · exact h.locked
  · exact h.returned

theorem Inv.run (h : Inv s) {b : Nat} (w : Bool) (hw : s.worker = .taken b) :
    Inv { s with
      worker := .ran b
      swapThreadWork := w
      handled := s.handled ++ [((s.mem b).ocallIndex, (s.mem b).buffer)] } := by
  have hc := h.count
  rw [hw] at hc
  have hlen : (s.handled ++ [((s.mem b).ocallIndex, (s.mem b).buffer)]).length = s.handled.length + 1 := by simp
  have hget := h.last b hw
  rw [← h.sentReq, List.getElem?_map] at hget
  obtain ⟨x, hx, hxb⟩ := Option.map_eq_some_iff.mp hget
  obtain ⟨hlt, hxk⟩ := List.getElem?_eq_some_iff.mp hx
  -- 次に処理する要求は、ブロックの持ち主が加えた要求である。
  have hdrop : s.sent.drop s.handled.length = x :: s.sent.drop (s.handled.length + 1) := by
    rw [List.drop_eq_getElem_cons hlt, hxk]
  obtain ⟨t, ht⟩ := h.current x (by rw [hdrop]; exact List.mem_cons_self)
  obtain ⟨u, f, hu, hm⟩ := h.owned b (by simp [Sys.inFlight, hw, Worker.req?])
  obtain rfl : u = t := h.owner_eq (by rw [hu]; rfl) (hxb ▸ ht)
  obtain rfl : f = x.1 := by
    rw [hu] at ht
    cases ht
    rfl
  have htake : s.sent.take (s.handled.length + 1) = s.sent.take s.handled.length ++ [x] := by
    rw [List.take_add_one, hx]
    rfl
  constructor
  · exact h.hist
  · have := h.nodup
    simp only [Sys.inFlight, hw, Worker.req?] at this
    exact this
  · have := h.owned
    simp only [Sys.inFlight, hw, Worker.req?] at this
    exact this
  · exact h.unique
  · exact h.frame
  · exact h.distinct
  · exact h.filled
  · exact h.sentReq
  · exact h.sentCall
  · exact h.sentNodup
  · exact h.unsent
  · exact h.waiting
  · intro y hy
    simp only [hlen] at hy
    exact h.current y (by rw [hdrop]; exact List.mem_cons_of_mem _ hy)
  · simp only [hlen]
    exact hc
  · show _ = (s.sent.take (s.handled ++ [((s.mem b).ocallIndex, (s.mem b).buffer)]).length).map _
    rw [hlen, htake, List.map_append, ← h.order, hm]
    rfl
  · intro c hc
    cases hc
  · intro v g d hv
    simp only [hlen, htake]
    exact List.mem_append_left _ (h.locked v g d hv)
  · intro c hc
    obtain ⟨y, hy, hyc⟩ := h.returned c hc
    exact ⟨y, by simp only [hlen, htake]; exact List.mem_append_left _ hy, hyc⟩

/-- 手元にないブロックの中身の変更。 -/
theorem Inv.setMem (h : Inv s) {b : Nat} {r : Request} (hb : b ∉ s.inFlight)
    (hf : ∀ t f, s.clients t ≠ .filled f b) : Inv (s.setMem b r) :=
  { h with
    owned := by
      intro c hc
      obtain ⟨t, f, ht, hm⟩ := h.owned c hc
      have hne : c ≠ b := by rintro rfl; exact hb hc
      exact ⟨t, f, ht, by simpa [Sys.setMem, hne] using hm⟩
    filled := by
      intro t f c ht
      have hne : c ≠ b := by rintro rfl; exact hf t f ht
      simpa [Sys.setMem, hne] using h.filled t f c ht }

theorem Inv.unlock (h : Inv s) {b : Nat} (hw : s.worker = .ran b) :
    Inv ({ s with worker := .polling }.setMem b { s.mem b with isDone := 0 }) := by
  have hfl : s.inFlight = b :: s.queued := by simp [Sys.inFlight, hw, Worker.req?]
  have hnd := h.nodup
  rw [hfl, List.nodup_cons] at hnd
  have hc := h.count
  rw [hw] at hc
  have h' : Inv { s with worker := .polling } :=
    { h with
      nodup := hnd.2
      owned := fun c hc => h.owned c (by rw [hfl]; exact List.mem_cons_of_mem _ hc)
      count := hc
      last := by intro c hc; cases hc }
  refine h'.setMem hnd.1 ?_
  intro t f ht
  obtain ⟨u, g, hu, _⟩ := h.owned b (by rw [hfl]; exact List.mem_cons_self)
  obtain rfl := h.owner_eq (by rw [show s.clients t = _ from ht]; rfl) hu
  rw [show s.clients t = _ from ht] at hu
  cases hu

/-! ## 到達できる状態 -/

theorem Inv.step (h : Inv s) (hlen : s.hist.enqueued.length < 2147483648) (hs : Step s s') : Inv s' := by
  cases hs with
  | call index ms ht => exact h.call index ms ht
  | mallocNull ht => exact h.mallocNull ht
  | malloc b ht hb => exact h.malloc ht hb
  | fill ht => exact h.fill ht
  | enqueue ht hk => exact h.enqueue hlen ht hk
  | acquire ht hd => exact h.acquire ht hd
  | free ht => exact h.free ht
  | poll hw hq hk =>
      have := h.dequeue hlen hw hq hk (w := s.worker) (by rw [hw]; rfl) (by rw [hw]; rfl)
      exact this
  | take hw hq hk => exact h.dequeue hlen hw hq hk rfl rfl
  | run hw => exact h.run _ hw
  | unlock hw => exact h.unlock hw
  | other b r hb =>
      refine h.setMem ?_ ?_
      · intro hfl
        obtain ⟨t, f, ht, _⟩ := h.owned b hfl
        exact hb t (by rw [ht]; rfl)
      · intro t f ht
        exact hb t (by rw [ht]; rfl)

theorem Step.enqueued_le (hs : Step s s') : s.hist.enqueued.length ≤ s'.hist.enqueued.length := by
  cases hs with
  | enqueue _ hk => exact Hist.step_enqueued_le hk
  | poll _ _ hk => exact Hist.step_enqueued_le hk
  | take _ _ hk => exact Hist.step_enqueued_le hk
  | _ => exact Nat.le_refl _

theorem Reach.inv (hr : Reach s) (hlen : s.hist.enqueued.length < 2147483648) : Inv s := by
  induction hr with
  | init mem => exact Inv.init mem
  | step _ hs ih =>
      have hlt := Nat.lt_of_le_of_lt hs.enqueued_le hlen
      exact (ih hlt).step hlt hs

end Eleos.Rpc
