import Eleos.Server.Lemmas.Update
import Eleos.Server.Theorems

/-!
# `HashMap::add` の書き込みは残るか

`add` は `deref` のあとに `hint_write` を立てる。書き込んだページに変更の印がなければ、書き出しのない追い出しが書き込みを捨てる。
-/

namespace Eleos.Server

open Pager Libc

variable {cfg : Config} {G : Gcm} {s s₀ s' : Sys} {t : Nat → Item} {i n : Nat} {x y : Int} {it : Item}
  {rs pre : List Request}

/-! ## 要求の列 -/

/-- どの要求と追い出しのあとも、表は保たれる。要求のない鍵の項目は変わらない。 -/
theorem Serving.requests (hG : G.Correct) (h : Serving cfg G x n t s) (hp : Placed cfg s₀ x n) (ht : Keyed n t)
    (hr : ∀ r ∈ rs, r.Valid n) : ∃ s' t', suvmRequests cfg G x n rs s = .ok s' ∧ Serving cfg G x n t' s' ∧ Keyed n t' ∧
      (∀ k : UInt64, (∀ r ∈ rs, r.Avoids n k) → t' k.toNat = t k.toNat) ∧ (Anchored s x n → Anchored s' x n) := by
  induction rs generalizing s t with
  | nil => exact ⟨s, t, rfl, h, ht, fun _ _ => rfl, id⟩
  | cons r rs ih =>
      have hrest : ∀ r ∈ rs, r.Valid n := fun r hm => hr r (List.mem_cons_of_mem _ hm)
      cases r with
      | get key =>
          have hkey : key.toNat < n := hr _ List.mem_cons_self
          obtain ⟨s₁, hget, h₁, hst⟩ := h.get hG hp hkey (ht.key_eq hkey)
          obtain ⟨s₂, t₂, hrun, h₂, ht₂, hsame, hanch⟩ := ih h₁ ht.update hrest
          refine ⟨s₂, t₂, bind_ok_iff.mpr ⟨s₁, hget, hrun⟩, h₂, ht₂, fun k hk => ?_, fun ha => hanch (ha.steady hst)⟩
          have hne : key ≠ k := (hk _ List.mem_cons_self).2
          rw [hsame k fun r hm => hk r (List.mem_cons_of_mem _ hm)]
          exact Function.update_of_ne (fun he => hne (UInt64.toNat_inj.mp he.symm)) _ _
      | evict =>
          obtain ⟨s₁, hev, h₁, hst, -⟩ := h.evict hG
          obtain ⟨s₂, t₂, hrun, h₂, ht₂, hsame, hanch⟩ := ih h₁ ht hrest
          exact ⟨s₂, t₂, bind_ok_iff.mpr ⟨s₁, hev, hrun⟩, h₂, ht₂, fun k hk => hsame k fun r hm =>
            hk r (List.mem_cons_of_mem _ hm), fun ha => hanch (ha.steady hst)⟩

theorem Request.Avoids.valid {r : Request} {k : UInt64} (h : r.Avoids n k) : r.Valid n := by
  cases r with
  | get key => exact h.1
  | evict => trivial

/-! ## 残る場合 -/

theorem Serving.survives (hG : G.Correct) (h : Serving cfg G x n t s) (hp : Placed cfg s₀ x n) (ht : Keyed n t)
    (hk : it.key.toNat < n) (hy : x + 16 * (it.key.toNat : Nat) = y)
    (hw : s.state.Dirty (y / pageSize) ∨ t it.key.toNat = it) : Survives cfg G s x n it := by
  obtain ⟨g, i, hadd, hg, -, hget, hdirty, -⟩ := suvmAdd_run hG h hp hk (ht.key_eq hk) hy
  have hcond : tagBit (g.state.epcArr i) = true ∨ t it.key.toNat = it := by
    rcases hw with hd | heq
    · obtain ⟨jt, hjt, htag⟩ := hdirty.mpr hd
      cases hget.symm.trans hjt
      exact Or.inl htag
    · exact Or.inr heq
  refine ⟨_, hadd, fun rs hrs => ?_⟩
  obtain ⟨s₂, t₂, hrun, h₂, -, hsame, -⟩ := (hg.store hp hy hk hget hcond).requests hG hp (ht.update (v := it.val))
    fun r hm => (hrs r hm).valid
  refine ⟨s₂, hrun, ?_⟩
  have hitem := (h₂.stored _ hk).itemAt_eq h₂.ready.good
  rwa [hsame it.key hrs, Function.update_self] at hitem

/-! ## 失われる場合 -/

/-- 変更の印のないページに加えた項目が残るのは、もとの項目に等しいときだけである。 -/
theorem Serving.lost (hG : G.Correct) (h : Serving cfg G x n t s) (hp : Placed cfg s₀ x n) (ht : Keyed n t)
    (ha : Anchored s x n) (hk : it.key.toNat < n) (hy : x + 16 * (it.key.toNat : Nat) = y)
    (hd : ¬ s.state.Dirty (y / pageSize)) (hs : Survives cfg G s x n it) : t it.key.toNat = it := by
  obtain ⟨g, i, hadd, hg, hst, hget, hdirty, -⟩ := suvmAdd_run hG h hp hk (ht.key_eq hk) hy
  have htag : tagBit (g.state.epcArr i) = false := by
    rw [← Bool.not_eq_true]
    exact fun htag => hd (hdirty.mp ⟨_, hget, htag⟩)
  have hlo : x / (pageSize : Int) ≤ y / pageSize := by
    unfold pageSize
    omega
  have hhi : y / (pageSize : Int) * pageSize < x + n * 16 := by
    unfold pageSize
    omega
  have hz := (ha.steady hst).unlinked hg.ready hget htag hlo hhi
  have hal : y % 16 = 0 := by
    have := hp.aligned
    unfold pageSize at this
    omega
  have hold := hg.stored _ hk
  rw [hy] at hold
  -- 枠の中身は、プールから復号した内容に等しい。
  obtain ⟨c, hc, hbytes⟩ := hold.backed hg.ready.good hget htag
  obtain ⟨m, l, hstore, -⟩ := storeBytes_state g.state (cfg.slot i + (y % pageSize).toNat) y it.bytes
  have hidle : State.Idle cfg G (storeBytes g.state (cfg.slot i + (y % pageSize).toNat) y it.bytes) (y / pageSize) i c := by
    rw [hstore]
    exact ⟨hg.ready.good.wf.withBytes, hget, htag, hz, hc⟩
  obtain ⟨k, s', hrun, hnone, hback⟩ := flush (x := x) (n := n)
    (s := { g with state := storeBytes g.state (cfg.slot i + (y % pageSize).toNat) y it.bytes }) hG hidle
  obtain ⟨s₁, hadd', hall⟩ := hs
  cases hadd.symm.trans hadd'
  obtain ⟨s₂, hrun', hitem⟩ := hall (List.replicate k .evict) fun r hr => by
    rw [List.eq_of_mem_replicate hr]
    trivial
  cases hrun.symm.trans hrun'
  have hdropped : itemAt G s' y = some (t it.key.toNat) := itemAt_of_backed hnone hback hal hbytes
  rw [hy, hdropped] at hitem
  exact Option.some.inj hitem

/-! ## 構築した表 -/

/-- 新しいブロックに構築した表では、表のページにつながる `Aptr` は `m_aptr` だけであり、その枠には変更の印がある。 -/
theorem suvmNew_anchored {a : Aptr} (hn : s'.aptrs = s.aptrs ++ [some a, none])
    (hfresh : ∀ p ∈ s.linked, p < x / pageSize ∨ x + n * 16 ≤ p * pageSize)
    (hlink : ∀ j, a.prmPtr = some j → tagBit (s'.state.epcArr j) = true) : Anchored s' x n := by
  intro b j hb hj hlo hhi
  rw [hn] at hb
  rcases List.mem_append.mp hb with hb | hb
  · have hmem : b.basePageIndex + b.page ∈ s.linked := by
      refine List.mem_filterMap.mpr ⟨some b, hb, ?_⟩
      rw [Option.bind_some, Aptr.linkedPage?, hj]
      rfl
    rcases hfresh _ hmem with h | h
    · omega
    · omega
  · simp only [List.mem_cons, Option.some.injEq, List.not_mem_nil, or_false, reduceCtorEq] at hb
    subst hb
    exact hlink j hj

/-- 新しいブロックに構築した表について、どの要求と追い出しのあとでも、`add` の書き込みが残るのは、`add` の始まるときに項目の
ページが枠にあって変更の印があるか、項目がすでに加える項目に等しいとき、かつそのときに限る。 -/
theorem survives_iff (hG : G.Correct) (hs : Session cfg G s) (hp : Placed cfg s x n)
    (hfresh : ∀ p ∈ s.linked, p < x / pageSize ∨ x + n * 16 ≤ p * pageSize) (junk : Aptr)
    (hpre : ∀ r ∈ pre, r.Valid n) (hk : it.key.toNat < n) : ∃ s₁ s₂,
      suvmNew cfg G s junk x n = .ok s₁ ∧ suvmRequests cfg G x n pre s₁ = .ok s₂ ∧
      (Survives cfg G s₂ x n it ↔ s₂.state.Dirty ((x + 16 * (it.key.toNat : Nat)) / pageSize) ∨
        itemAt G s₂ (x + 16 * (it.key.toNat : Nat)) = some it) := by
  obtain ⟨s₁, hnew, h₁, a, haptrs, hlink, -⟩ := suvmNew_ok hG junk (hs.ready hG) hp
  have hanch := suvmNew_anchored haptrs hfresh hlink
  have hkeyed : Keyed n fun i => ⟨UInt64.ofNat i, 0⟩ := fun i _ => rfl
  obtain ⟨s₂, t₂, hrun, h₂, ht₂, -, hanch₂⟩ := h₁.requests hG hp hkeyed hpre
  have hitem := (h₂.stored _ hk).itemAt_eq h₂.ready.good
  refine ⟨s₁, s₂, hnew, hrun, ?_, ?_⟩
  · intro hsv
    by_cases hd : s₂.state.Dirty ((x + 16 * (it.key.toNat : Nat)) / pageSize)
    · exact Or.inl hd
    · refine Or.inr ?_
      rw [hitem, h₂.lost hG hp ht₂ (hanch₂ hanch) hk rfl hd hsv]
  · rintro (hd | heq)
    · exact h₂.survives hG hp ht₂ hk rfl (Or.inl hd)
    · rw [hitem] at heq
      exact h₂.survives hG hp ht₂ hk rfl (Or.inr (Option.some.inj heq))

theorem narrowInit_fresh : ∀ p ∈ narrowInit.linked, p < 8192 / pageSize ∨ 8192 + 1024 * 16 ≤ p * pageSize :=
  fun _ hp => nomatch hp

/-- 四枚のページの表で、要求と追い出しのあとに加える。 -/
theorem survives_iff_narrow : ∃ s₁ s₂, suvmNew narrowConfig demoGcm narrowInit newAptr 8192 1024 = .ok s₁ ∧
    suvmRequests narrowConfig demoGcm 8192 1024 [.get 5, .evict] s₁ = .ok s₂ ∧
    (Survives narrowConfig demoGcm s₂ 8192 1024 ⟨300, 7⟩ ↔
      s₂.state.Dirty ((8192 + 16 * ((300 : UInt64).toNat : Nat)) / pageSize) ∨
        itemAt demoGcm s₂ (8192 + 16 * ((300 : UInt64).toNat : Nat)) = some ⟨300, 7⟩) :=
  survives_iff demoGcm_correct ⟨_, _, _, _, .refl⟩ narrowInit_placed narrowInit_fresh newAptr
    (by simp [Request.Valid]) (by decide)

/-- 四枚のページの表を構築して三度追い出したあと、鍵 0 に値 7 を加えると、書き込みは残らない。 -/
theorem add_lost_narrow : ∃ s₁ s₂, suvmNew narrowConfig demoGcm narrowInit newAptr 8192 1024 = .ok s₁ ∧
    suvmRequests narrowConfig demoGcm 8192 1024 [.evict, .evict, .evict] s₁ = .ok s₂ ∧
    ¬ Survives narrowConfig demoGcm s₂ 8192 1024 ⟨0, 7⟩ := by
  have hready : Ready narrowConfig demoGcm narrowInit := Session.ready demoGcm_correct ⟨_, _, _, _, .refl⟩
  obtain ⟨s₁, hnew, h₁, a, haptrs, hlink, hpage⟩ := suvmNew_ok demoGcm_correct newAptr hready narrowInit_placed
  have hanch := suvmNew_anchored haptrs narrowInit_fresh hlink
  -- `m_aptr` は最後のページにつながっている。
  have hz : s₁.state.l1.refCount 2 = 0 := by
    have hlinked : s₁.linked = [5] := by
      have hcons : s₁.aptrs = [some a, none] := haptrs
      unfold Sys.linked
      rw [hcons]
      show List.filterMap _ [some a, none] = _
      rw [List.filterMap_cons_some (b := 5) (by rw [Option.bind_some, hpage]; decide)]
      rfl
    rw [h₁.ready.good.pinned.count 2, Sys.linkedCount, hlinked]
    rfl
  obtain ⟨s₂, hrun, h₂, hanch₂, hnone⟩ := h₁.vanish (m := 3) demoGcm_correct hanch hz (Or.inr h₁.ready.good.wf.size_le)
  have hkeyed : Keyed 1024 fun i => ⟨UInt64.ofNat i, 0⟩ := fun i _ => rfl
  refine ⟨s₁, s₂, hnew, hrun, fun hsv => ?_⟩
  have hd : ¬ s₂.state.Dirty (8192 / pageSize) := by
    rintro ⟨it, hit, -⟩
    have : s₂.state.l1.get 2 = some it := hit
    rw [hnone] at this
    cases this
  have heq := h₂.lost (y := 8192) demoGcm_correct narrowInit_placed hkeyed hanch₂ (by decide) rfl hd hsv
  exact absurd (congrArg Item.val heq) (by decide)

end Eleos.Server
