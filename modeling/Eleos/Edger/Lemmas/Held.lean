import Eleos.Edger.Lemmas.Bridge

/-!
# 写しの所有

監視器が生きているとみなすブロックは、橋渡しの関数の局所変数が指す写しである。
-/

namespace Eleos.Edger.Bridge

variable {w : World} {plist : List Pdecl} {S : List String} {r r' : Run} {m m' : Monitor} {ev : Event} {x : String}

/-- `S` の引数の写しだけが生きている。 -/
structure Holds (w : World) (plist : List Pdecl) (S : List String) (r : Run) (m : Monitor) : Prop where
  read : policy plist r.log = some m
  -- 写しは引数と同じ大きさであり、引数の範囲は確かめてある。
  own : ∀ x ∈ S, r.vars (.inp x) ≠ 0 →
    m.live (r.vars (.inp x)) = some (r.vars (.len x)) ∧ (r.vars (.tmp x), r.vars (.len x)) ∈ m.checked
  only : ∀ p, m.live p ≠ none → (∃ x ∈ S, r.vars (.inp x) = p ∧ p ≠ 0) ∧ ∃ i < r.clock, w.malloc i = p
  inj : ∀ x ∈ S, ∀ y ∈ S, r.vars (.inp x) = r.vars (.inp y) → r.vars (.inp x) ≠ 0 → x = y

theorem policy_note (h : policy plist r.log = some m) (hev : Monitor.step plist m ev = some m') :
    policy plist (r.note ev).log = some m' := by
  unfold policy at *
  rw [Run.note, List.foldlM_append, h]
  simpa using hev

namespace Holds

/-- 引数の局所変数と履歴が変わらなければ、所有も変わらない。 -/
theorem frame (h : Holds w plist S r m) (hlog : r'.log = r.log) (hvars : ∀ x, x ≠ .status → r'.vars x = r.vars x)
    (hclock : r.clock ≤ r'.clock) : Holds w plist S r' m := by
  have hi (x : String) : r'.vars (.inp x) = r.vars (.inp x) := hvars _ nofun
  have ht (x : String) : r'.vars (.tmp x) = r.vars (.tmp x) := hvars _ nofun
  have hl (x : String) : r'.vars (.len x) = r.vars (.len x) := hvars _ nofun
  refine ⟨hlog ▸ h.read, fun x hx => ?_, fun p hp => ?_, fun x hx y hy => ?_⟩
  · rw [hi, ht, hl]
    exact h.own x hx
  · obtain ⟨⟨x, hx, hxp⟩, i, hlt, hip⟩ := h.only p hp
    exact ⟨⟨x, hx, by rwa [hi]⟩, i, hlt.trans_le hclock, hip⟩
  · rw [hi, hi]
    exact h.inj x hx y hy

theorem tick (h : Holds w plist S r m) {t : Nat} (ht : r.clock ≤ t) : Holds w plist S (r.tick t) m :=
  h.frame rfl (fun _ _ => rfl) ht

theorem setStatus (h : Holds w plist S r m) (v : UInt64) : Holds w plist S (r.set .status v) m :=
  h.frame rfl (fun _ hx => Function.update_of_ne hx ..) le_rfl

/-- ブロックを増減しない項目。 -/
theorem note (h : Holds w plist S r m) (hev : Monitor.step plist m ev = some m) : Holds w plist S (r.note ev) m :=
  ⟨policy_note h.read hev, h.own, h.only, h.inj⟩

/-- 範囲を確かめる。 -/
theorem check (h : Holds w plist S r m) (p n : UInt64) :
    Holds w plist S (r.note (.check p n)) { m with checked := (p, n) :: m.checked } :=
  ⟨policy_note h.read rfl, fun x hx hne => ⟨(h.own x hx hne).1, List.mem_cons_of_mem _ (h.own x hx hne).2⟩,
    h.only, h.inj⟩

/-- 写しがなければ、どの引数の所有も主張してよい。 -/
theorem widen (h : Holds w plist [] r m) (hS : ∀ x ∈ S, r.vars (.inp x) = 0) : Holds w plist S r m := by
  refine ⟨h.read, fun x hx hne => absurd (hS x hx) hne, fun p hp => ?_, fun x hx _ _ _ hne => absurd (hS x hx) hne⟩
  obtain ⟨⟨x, hx, _⟩, _⟩ := h.only p hp
  exact absurd hx List.not_mem_nil

/-- 時刻 `r.clock` の番地は、まだ生きていない。 -/
theorem fresh (h : Holds w plist S r m) (hne : w.malloc r.clock ≠ 0) : m.live (w.malloc r.clock) = none := by
  by_contra hlive
  obtain ⟨_, i, hlt, hi⟩ := h.only _ hlive
  have := w.fresh i r.clock hi (hi ▸ hne)
  exact absurd this hlt.ne

/-- `x` の写しのための `malloc` は、成功すれば `x` の所有になる。 -/
theorem malloc (h : Holds w plist S r m) (hx : x ∈ S) (hz : r.vars (.inp x) = 0)
    (hchk : (r.vars (.tmp x), r.vars (.len x)) ∈ m.checked) (ty : String) :
    ∃ r' m', (Stmt.malloc (.inp x) ty (.len x)).exec w r = .next r' ∧
      r'.vars = Function.update r.vars (.inp x) (w.malloc r.clock) ∧
        Holds w plist S r' m' ∧ m'.checked = m.checked := by
  have hother {y : String} (hne : y ≠ x) :
      Function.update r.vars (.inp x) (w.malloc r.clock) (.inp y) = r.vars (.inp y) := by
    refine Function.update_of_ne ?_ ..
    simpa using hne
  -- 生きているブロックは、ほかの引数の写しである。
  have honly (p : UInt64) (hp : m.live p ≠ none) : ∃ y ∈ S, y ≠ x ∧ r.vars (.inp y) = p ∧ p ≠ 0 := by
    obtain ⟨⟨y, hy, hyp, hne⟩, _⟩ := h.only p hp
    refine ⟨y, hy, ?_, hyp, hne⟩
    rintro rfl
    exact hne (hyp.symm.trans hz)
  by_cases hp : w.malloc r.clock = 0
  · -- 写しの番地は 0 のまま変わらない。
    have hsame : Function.update r.vars (.inp x) 0 = r.vars := by
      rw [← hz]
      exact Function.update_eq_self ..
    refine ⟨(r.set (.inp x) 0).tick (r.clock + 1), m, by simp [Stmt.exec, hp], by rw [hp]; rfl, ?_, rfl⟩
    exact h.frame rfl (fun y _ => congrFun hsame y) (Nat.le_succ _)
  · have hfresh := h.fresh hp
    refine ⟨((r.set (.inp x) (w.malloc r.clock)).tick (r.clock + 1)).note
        (.malloc (w.malloc r.clock) (r.vars (.len x))),
      { m with live := Function.update m.live (w.malloc r.clock) (some (r.vars (.len x))) },
      by simp [Stmt.exec, hp], rfl, ⟨?_, ?_, ?_, ?_⟩, rfl⟩
    · refine policy_note h.read ?_
      simp [Monitor.step, hfresh]
    · intro y hy hne
      by_cases hyx : y = x
      · subst hyx
        simpa [Run.note, Run.tick, Run.set] using hchk
      · simp only [Run.note, Run.tick, Run.set, hother hyx] at hne ⊢
        obtain ⟨hlive, hmem⟩ := h.own y hy hne
        have hpy : r.vars (.inp y) ≠ w.malloc r.clock := by
          intro heq
          rw [heq, hfresh] at hlive
          cases hlive
        simpa [hpy] using ⟨hlive, hmem⟩
    · intro p hlive
      by_cases hpx : p = w.malloc r.clock
      · subst hpx
        exact ⟨⟨x, hx, by simp [Run.note, Run.tick, Run.set], hp⟩, r.clock, Nat.lt_succ_self _, rfl⟩
      · have hlive : m.live p ≠ none := by simpa [hpx] using hlive
        obtain ⟨y, hy, hyx, hyp, hne⟩ := honly p hlive
        obtain ⟨_, i, hlt, hi⟩ := h.only p hlive
        refine ⟨⟨y, hy, ?_, hne⟩, i, hlt.trans (Nat.lt_succ_self _), hi⟩
        simpa [Run.note, Run.tick, Run.set, hyx] using hyp
    · -- 新しい番地は、生きている写しの番地と異なる。
      have hnew {y : String} (hy : y ∈ S) (hyx : y ≠ x) (heq : r.vars (.inp y) = w.malloc r.clock) : False := by
        have hlive := (h.own y hy (heq ▸ hp)).1
        rw [heq, hfresh] at hlive
        cases hlive
      intro y hy z hz' heq hne
      simp only [Run.note, Run.tick, Run.set] at heq hne
      by_cases hyx : y = x
      · by_cases hzx : z = x
        · rw [hyx, hzx]
        · subst hyx
          rw [Function.update_self, hother hzx] at heq
          exact (hnew hz' hzx heq.symm).elim
      · by_cases hzx : z = x
        · subst hzx
          rw [Function.update_self, hother hyx] at heq
          exact (hnew hy hyx heq).elim
        · rw [hother hyx, hother hzx] at heq
          rw [hother hyx] at hne
          exact h.inj y hy z hz' heq hne

/-- 写しのない引数の所有は、放してよい。 -/
theorem drop (h : Holds w plist (x :: S) r m) (hz : r.vars (.inp x) = 0) : Holds w plist S r m := by
  refine ⟨h.read, fun y hy => h.own y (List.mem_cons_of_mem _ hy), fun p hp => ?_, fun y hy z hz' =>
    h.inj y (List.mem_cons_of_mem _ hy) z (List.mem_cons_of_mem _ hz')⟩
  obtain ⟨⟨y, hy, hyp, hne⟩, hold⟩ := h.only p hp
  cases List.mem_cons.mp hy with
  | inl hyx =>
      subst hyx
      exact absurd (hyp.symm.trans hz) hne
  | inr hy => exact ⟨⟨y, hy, hyp, hne⟩, hold⟩

/-- 写しを解放すると、所有も放す。 -/
theorem free (h : Holds w plist (x :: S) r m) (hx : x ∉ S) (hne : r.vars (.inp x) ≠ 0) :
    ∃ m', Holds w plist S (r.note (.free (r.vars (.inp x)))) m' := by
  have hown := h.own x List.mem_cons_self hne
  -- ほかの写しは、解放する番地と異なる。
  have hother {y : String} (hy : y ∈ S) (heq : r.vars (.inp y) = r.vars (.inp x)) : False := by
    have := h.inj x List.mem_cons_self y (List.mem_cons_of_mem _ hy) heq.symm hne
    exact hx (this ▸ hy)
  refine ⟨{ m with live := Function.update m.live (r.vars (.inp x)) none }, ?_, ?_, ?_, ?_⟩
  · refine policy_note h.read ?_
    simp [Monitor.step, hown.1]
  · intro y hy hney
    have hyx : r.vars (.inp y) ≠ r.vars (.inp x) := fun heq => hother hy heq
    simpa [Run.note, hyx] using h.own y (List.mem_cons_of_mem _ hy) hney
  · intro p hp
    by_cases hpx : p = r.vars (.inp x)
    · subst hpx
      exact absurd (Function.update_self ..) hp
    · have hp : m.live p ≠ none := by simpa [hpx] using hp
      obtain ⟨⟨y, hy, hyp, hne'⟩, hold⟩ := h.only p hp
      cases List.mem_cons.mp hy with
      | inl hyx =>
          subst hyx
          exact absurd hyp.symm hpx
      | inr hy => exact ⟨⟨y, hy, hyp, hne'⟩, hold⟩
  · exact fun y hy z hz => h.inj y (List.mem_cons_of_mem _ hy) z (List.mem_cons_of_mem _ hz)

/-- 所有する引数がなければ、ブロックはすべて解放してある。 -/
theorem clean (h : Holds w plist [] r m) : Clean plist r.log := by
  refine ⟨m, h.read, ?_⟩
  funext p
  by_contra hp
  obtain ⟨⟨x, hx, _⟩, _⟩ := h.only p hp
  exact absurd hx List.not_mem_nil

end Holds

end Eleos.Edger.Bridge
