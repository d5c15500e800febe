import Eleos.Pager.Host
import Eleos.Pager.Lemmas.Pinning

/-!
# 暗号化の記録

`CryptoCache` の項目は、履歴の中の同じページの最後の暗号化のノンスとタグである。
プールの中身には触れないので、ホストの書き換えに関わらず成り立つ。
-/

namespace Eleos.Pager

variable {cfg : Config} {G : Gcm} {host : Host} {s s' : State} {p : Int} {it : Item} {i : Nat}

/-- 履歴の各項目と、それより前の履歴の関係。 -/
def Recorded (G : Gcm) (k : Key) : List Event → Prop
  | [] => True
  | .evict _ (some e) :: l => G.encrypt k e.nonce e.plain = some (e.cipher, e.tag) ∧ Recorded G k l
  | .load p _ none _ :: l => lastSeal l p = none ∧ Recorded G k l
  | .load p _ (some e) c :: l => c = e.plain ∧ G.decrypt k e.nonce e.cipher e.tag = some e.plain ∧
      (∃ e₀, lastSeal l p = some e₀ ∧ e₀.nonce = e.nonce ∧ e₀.tag = e.tag) ∧ Recorded G k l
  | _ :: l => Recorded G k l

/-- `CryptoCache`、ノンスの位置、履歴の関係。 -/
structure State.Logged (G : Gcm) (s : State) : Prop where
  entry : ∀ p, (s.llc.get p).map (fun y => (y.nonce, y.mac)) =
    (lastSeal s.trace p).map fun e => (e.nonce, e.tag)
  nonces : (seals s.trace).map Seal.nonce = ((List.range s.randPos).map s.rand).reverse
  recorded : Recorded G s.evictionKey s.trace

theorem State.init_logged (cfg : Config) (epc pool : Nat → UInt8) (key : Key) (rand : Nat → Nonce) :
    (State.init cfg epc pool key rand).Logged G :=
  ⟨fun _ => rfl, rfl, trivial⟩

theorem Recorded.append {k : Key} {l₁ l₂ : List Event} (h : Recorded G k (l₁ ++ l₂)) : Recorded G k l₂ := by
  induction l₁ with
  | nil => exact h
  | cons ev l₁ ih =>
      apply ih
      rw [List.cons_append] at h
      cases ev with
      | evict p e =>
          cases e with
          | none => exact h
          | some e => exact h.2
      | load p i e c =>
          cases e with
          | none => exact h.2
          | some e => exact h.2.2.2
      | read x v => exact h
      | write x v => exact h

theorem seals_append (l₁ l₂ : List Event) : seals (l₁ ++ l₂) = seals l₁ ++ seals l₂ := by
  induction l₁ with
  | nil => rfl
  | cons ev l₁ ih =>
      rw [List.cons_append]
      cases ev with
      | evict p e =>
          cases e with
          | none => exact ih
          | some e => exact congrArg (e :: ·) ih
      | load p i e c => exact ih
      | read x v => exact ih
      | write x v => exact ih

theorem lastSeal_spec {k : Key} {l : List Event} {e : Seal} (hr : Recorded G k l) (h : lastSeal l p = some e) :
    e ∈ seals l ∧ G.encrypt k e.nonce e.plain = some (e.cipher, e.tag) := by
  induction l with
  | nil => cases h
  | cons ev l ih =>
      cases ev with
      | evict q o =>
          cases o with
          | none => exact ih hr h
          | some e' =>
              simp only [lastSeal] at h
              split at h
              · cases h
                exact ⟨List.mem_cons_self, hr.1⟩
              · exact ⟨List.mem_cons_of_mem _ (ih hr.2 h).1, (ih hr.2 h).2⟩
      | load q i o c =>
          cases o with
          | none => exact ih hr.2 h
          | some e' => exact ih hr.2.2.2 h
      | read x v => exact ih hr h
      | write x v => exact ih hr h

theorem State.Logged.entry_of_lastSeal {e : Seal} (h : s.Logged G) (he : lastSeal s.trace p = some e) :
    ∃ y, s.llc.get p = some y ∧ y.nonce = e.nonce ∧ y.mac = e.tag := by
  have hentry := h.entry p
  rw [he] at hentry
  cases hy : s.llc.get p with
  | none =>
      rw [hy] at hentry
      cases hentry
  | some y =>
      rw [hy] at hentry
      simp only [Option.map_some, Option.some.injEq, Prod.mk.injEq] at hentry
      exact ⟨y, rfl, hentry⟩

theorem State.Logged.lastSeal_of_entry {y : CryptoItem} (h : s.Logged G) (hy : s.llc.get p = some y) :
    ∃ e, lastSeal s.trace p = some e ∧ e.nonce = y.nonce ∧ e.tag = y.mac := by
  have hentry := h.entry p
  rw [hy] at hentry
  cases he : lastSeal s.trace p with
  | none =>
      rw [he] at hentry
      cases hentry
  | some e =>
      rw [he] at hentry
      simp only [Option.map_some, Option.some.injEq, Prod.mk.injEq] at hentry
      exact ⟨e, rfl, hentry.1.symm, hentry.2.symm⟩

/-! ## 状態の変化 -/

theorem State.Logged.drop_clean (h : s.Logged G) : (s.drop it none).Logged G :=
  ⟨h.entry, h.nonces, h.recorded⟩

theorem State.Logged.drop_dirty {e : Seal} (h : s.Logged G) (he : s.Seals G it e) :
    ((s.writeBack it e).drop it (some e)).Logged G := by
  obtain ⟨hn, hp, henc⟩ := he
  refine ⟨?_, ?_, ?_⟩
  · intro q
    simp only [State.drop, State.writeBack, lastSeal]
    by_cases hq : q = it.pageIndex
    · subst hq
      rw [CryptoCache.get_write_self, if_pos rfl]
      rfl
    · rw [CryptoCache.get_write_ne hq, if_neg hq]
      exact h.entry q
  · simp only [State.drop, State.writeBack, seals, List.map_cons, h.nonces, List.range_succ, List.map_append,
      List.reverse_append, hn]
    rfl
  · exact ⟨henc, h.recorded⟩

theorem makeRoom_logged (h : s.Logged G) (hm : makeRoom cfg G s = .ok s') : s'.Logged G := by
  rcases makeRoom_ok_iff.mp hm with ⟨_, rfl⟩ | ⟨_, it, c, _, hev⟩
  · exact h
  · have h' : State.Logged G { s with l1 := c } := ⟨h.entry, h.nonces, h.recorded⟩
    obtain ⟨_, ⟨_, rfl⟩ | ⟨_, e, he, rfl⟩⟩ := tryEvictPage_ok_iff.mp hev
    · exact h'.drop_clean
    · exact h'.drop_dirty he

theorem loadPage_logged (h : s.Logged G) (hg : s.l1.get p = none) (hl : loadPage G s p = .ok (s', i)) :
    s'.Logged G := by
  obtain ⟨rest, e, _, _, hu, rfl⟩ := (loadPage_ok_iff hg).mp hl
  have hentry := h.entry p
  refine ⟨h.entry, h.nonces, ?_⟩
  cases hu with
  | absent hn =>
      rw [hn] at hentry
      exact ⟨by simpa using hentry.symm, h.recorded⟩
  | @present y plain hy hd =>
      rw [hy] at hentry
      refine ⟨readPage_writePage_self, hd, ?_, h.recorded⟩
      cases hs : lastSeal s.trace p with
      | none => simp [hs] at hentry
      | some e₀ =>
          simp only [hs, Option.map_some, Option.some.injEq, Prod.mk.injEq] at hentry
          exact ⟨e₀, rfl, hentry.1.symm, hentry.2.symm⟩

theorem retarget_l1 {a a' : Aptr} (h : retarget s a = .ok (s', a', p)) : ∃ c, s' = { s with l1 := c } := by
  unfold retarget at h
  simp only at h
  split at h
  · obtain ⟨c, _, h⟩ := bind_ok_iff.mp h
    obtain ⟨c', _, h⟩ := bind_ok_iff.mp h
    cases h
    exact ⟨c', rfl⟩
  · obtain ⟨c, _, h⟩ := bind_ok_iff.mp h
    obtain ⟨c', _, h⟩ := bind_ok_iff.mp h
    cases h
    exact ⟨c', rfl⟩

theorem pageFault_logged {a a' : Aptr} (h : s.Logged G) (hp : pageFault cfg G host s a = .ok (s', a')) :
    s'.Logged G := by
  obtain ⟨⟨s₁, b, p⟩, hre, hp⟩ := bind_ok_iff.mp hp
  obtain ⟨c, rfl⟩ := retarget_l1 hre
  have h₁ : State.Logged G { s with l1 := c } := ⟨h.entry, h.nonces, h.recorded⟩
  cases hg : c.get p with
  | some it =>
      simp only [hg, Except.ok.injEq, Prod.mk.injEq] at hp
      obtain ⟨rfl, _⟩ := hp
      exact h₁
  | none =>
      simp only [hg] at hp
      obtain ⟨s₂, hm, hp⟩ := bind_ok_iff.mp hp
      obtain ⟨⟨s₃, i⟩, hl, hp⟩ := bind_ok_iff.mp hp
      cases hp
      have h₂ := makeRoom_logged h₁ hm
      have hn := makeRoom_get_none (p := p) hm hg
      have h₃ : State.Logged G { s₂ with pool := host s₂.pool } := ⟨h₂.entry, h₂.nonces, h₂.recorded⟩
      exact loadPage_logged h₃ (by exact hn) hl

theorem markDirty_epcArr {a : Aptr} (h : markDirty s a = .ok s') : ∃ f, s' = { s with epcArr := f } := by
  unfold markDirty at h
  split at h
  · split at h
    · cases h
    · split at h
      · cases h
      · cases h
        exact ⟨_, rfl⟩
  · cases h
    exact ⟨_, rfl⟩

theorem deref_logged {a a' : Aptr} {x : Nat} (h : s.Logged G) (hd : deref cfg G host s a = .ok (s', a', x)) :
    s'.Logged G := by
  have hfin {t : State} {b : Aptr} (ht : t.Logged G)
      (hm : (do let t₁ ← markDirty t b
                Except.ok (t₁, b, aptr2Addr t b)) = .ok (s', a', x)) : s'.Logged G := by
    obtain ⟨t₁, hm, heq⟩ := bind_ok_iff.mp hm
    obtain ⟨f, rfl⟩ := markDirty_epcArr hm
    cases heq
    exact ⟨ht.entry, ht.nonces, ht.recorded⟩
  unfold deref at hd
  cases hv : isValid a.offset with
  | true =>
      simp only [hv, ↓reduceIte] at hd
      exact hfin h hd
  | false =>
      simp only [hv, Bool.false_eq_true, ↓reduceIte] at hd
      obtain ⟨⟨t, b⟩, hpf, hd⟩ := bind_ok_iff.mp hd
      exact hfin (pageFault_logged h hpf) hd

theorem Aptr.reset_l1 {a a' : Aptr} (h : a.reset s = .ok (s', a')) : ∃ c, s' = { s with l1 := c } := by
  unfold Aptr.reset at h
  simp only at h
  split at h
  · cases h
    exact ⟨_, rfl⟩
  · obtain ⟨c, _, h⟩ := bind_ok_iff.mp h
    cases h
    exact ⟨c, rfl⟩

theorem step_logged {s s' : Sys} {op : Op} (h : s.state.Logged G) (hs : s.step cfg G host op = .ok s') :
    s'.state.Logged G := by
  have hreset {a a' : Aptr} {t : State} (hr : a.reset s.state = .ok (t, a')) : t.Logged G := by
    obtain ⟨c, rfl⟩ := Aptr.reset_l1 hr
    exact ⟨h.entry, h.nonces, h.recorded⟩
  cases op with
  | construct x n =>
      obtain ⟨a, _, hs⟩ := bind_ok_iff.mp hs
      cases hs
      exact h
  | null junk =>
      cases hs
      exact h
  | copy src =>
      obtain ⟨a, _, hs⟩ := bind_ok_iff.mp hs
      cases hs
      exact h
  | assign dst src =>
      obtain ⟨a, _, hs⟩ := bind_ok_iff.mp hs
      obtain ⟨⟨t, a'⟩, hr, hs⟩ := bind_ok_iff.mp hs
      obtain ⟨b, _, hs⟩ := bind_ok_iff.mp hs
      cases hs
      exact hreset hr
  | move d n k =>
      obtain ⟨a, _, hs⟩ := bind_ok_iff.mp hs
      cases hs
      exact h
  | hint d b =>
      obtain ⟨a, _, hs⟩ := bind_ok_iff.mp hs
      cases hs
      exact h
  | read d =>
      obtain ⟨a, _, hs⟩ := bind_ok_iff.mp hs
      obtain ⟨⟨t, a', x⟩, hd, hs⟩ := bind_ok_iff.mp hs
      have ht := deref_logged h hd
      cases hs
      exact ⟨ht.entry, ht.nonces, ht.recorded⟩
  | write d v =>
      obtain ⟨a, _, hs⟩ := bind_ok_iff.mp hs
      obtain ⟨⟨t, a', x⟩, hd, hs⟩ := bind_ok_iff.mp hs
      have ht := deref_logged h hd
      cases hs
      exact ⟨ht.entry, ht.nonces, ht.recorded⟩
  | reset d =>
      obtain ⟨a, _, hs⟩ := bind_ok_iff.mp hs
      obtain ⟨⟨t, a'⟩, hr, hs⟩ := bind_ok_iff.mp hs
      cases hs
      exact hreset hr
  | destroy d =>
      obtain ⟨a, _, hs⟩ := bind_ok_iff.mp hs
      obtain ⟨⟨t, a'⟩, hr, hs⟩ := bind_ok_iff.mp hs
      cases hs
      exact hreset hr

theorem runHost_logged {s s' : Sys} {hs : List HostOp} (h : s.state.Logged G)
    (hr : s.runHost cfg G hs = .ok s') : s'.state.Logged G := by
  induction hs generalizing s with
  | nil =>
      cases hr
      exact h
  | cons o hs ih =>
      obtain ⟨s₁, hstep, hr⟩ := bind_ok_iff.mp hr
      have h' : State.Logged G { s.state with pool := o.before s.state.pool } := ⟨h.entry, h.nonces, h.recorded⟩
      exact ih (step_logged (by exact h') hstep) hr

/-! ## 新しさ -/

/-- 偽造がなく、ノンスが重ならなければ、読み込みは最後の追い出しの内容を返す。 -/
theorem Recorded.fresh {k : Key} {l : List Event} (hG : G.Inverts) (hr : Recorded G k l) (hu : Unforged l)
    (hn : ((seals l).map Seal.nonce).Nodup) : Fresh l := by
  intro l₁ p i e c l₂ heq
  subst heq
  have hr₂ := hr.append
  cases e with
  | none => exact Or.inl ⟨rfl, hr₂.1⟩
  | some e =>
      obtain ⟨hc, hd, ⟨e₀, hlast, hnonce, htag⟩, hr₃⟩ := hr₂
      obtain ⟨e', he', hnonce', hcipher, htag'⟩ := hu l₁ p i e c l₂ rfl
      obtain ⟨he₀, henc⟩ := lastSeal_spec hr₃ hlast
      -- 同じノンスの暗号化は一つしかない。
      have hnd : ((seals l₂).map Seal.nonce).Nodup := by
        rw [seals_append, List.map_append] at hn
        exact (List.nodup_append.mp hn).2.1
      have hsame : e₀ = e' := List.inj_on_of_nodup_map hnd he₀ he' (hnonce.trans hnonce'.symm)
      have hdec := hG _ _ _ _ _ henc
      rw [hsame, hnonce', hcipher, htag', hd, Option.some.injEq] at hdec
      exact Or.inr ⟨e₀, hlast, by simp, by rw [hc, hdec, hsame]⟩

theorem State.Logged.nonces_nodup (h : s.Logged G)
    (hinj : ∀ i j, i < s.randPos → j < s.randPos → s.rand i = s.rand j → i = j) :
    ((seals s.trace).map Seal.nonce).Nodup := by
  rw [h.nonces, List.nodup_reverse]
  refine List.Nodup.map_on ?_ List.nodup_range
  intro i hi j hj heq
  exact hinj i j (List.mem_range.mp hi) (List.mem_range.mp hj) heq

/-- 復号できない内容の読み込みは、検査で止まる。 -/
theorem loadPage_abort {y : CryptoItem} (hy : s.llc.get p = some y)
    (hd : G.decrypt s.evictionKey y.nonce (readPage s.pool (ramPage p)) y.mac = none) :
    loadPage G s p = .error .abort := by
  unfold loadPage popFree
  cases hf : s.freeEpcPages with
  | nil => rfl
  | cons i rest => simp [Bind.bind, Except.bind, fillSlot, hy, hd]

end Eleos.Pager
