import Eleos.Pager.Lemmas.Coherence

/-!
# 一回の追い出し

追い出しは、参照の数と `Aptr` を変えず、不変条件を保つ。変更の印も参照もないページは、追い出しを繰り返せば枠から外れ、
そのときプールの中身は最後に書き出したままである。
-/

namespace Eleos.Pager

variable {cfg : Config} {G : Gcm} {s s' : State} {p : Int} {i : Nat} {c : Page}

/-! ## 変わらないもの -/

theorem Room.frame (hr : Room cfg G s s') : s.Frame s' := by
  cases hr with
  | skip _ => exact .refl
  | clean _ _ _ _ _ _ => exact ⟨rfl, rfl, fun _ => rfl, rfl, rfl⟩
  | dirty _ _ _ _ _ _ _ => exact ⟨rfl, rfl, clearTag_update (clearTag_clearTag _), rfl, rfl⟩

theorem Room.trace (hr : Room cfg G s s') : ∃ l, s'.trace = l ++ s.trace ∧ ∀ ev ∈ l, ev.Paging := by
  cases hr with
  | skip _ => exact ⟨[], rfl, fun _ hev => nomatch hev⟩
  | @clean it r _ _ _ _ _ _ =>
      refine ⟨[.evict it.pageIndex none], rfl, fun ev hev => ?_⟩
      cases List.mem_singleton.mp hev
      trivial
  | @dirty it r e _ _ _ _ _ _ _ =>
      refine ⟨[.evict it.pageIndex (some e)], rfl, fun ev hev => ?_⟩
      cases List.mem_singleton.mp hev
      trivial

theorem Room.good {s : Sys} {t : State} (hG : G.Correct) (h : s.Good cfg G) (hw : s.Within cfg)
    (hr : Room cfg G s.state t) : Sys.Good cfg G { s with state := t } := by
  have hf := hr.frame
  obtain ⟨l, hl, hp⟩ := hr.trace
  refine ⟨⟨hf.slots h.pinned.slots, hf.store.trans h.pinned.store, h.pinned.bounded, fun q => ?_⟩, hr.wf h.wf, ?_, ?_, ?_⟩
  · show t.l1.refCount q = _
    rw [hf.refCount]
    exact h.pinned.count q
  · intro b j hb hj
    show t.l1.get _ = _
    rw [hr.get h.wf (h.pinned.refCount_ne_zero hw hb hj)]
    exact h.links b j hb hj
  · show t.Holds cfg G (lastWrite t.trace)
    rw [hl, lastWrite_append hp]
    exact hr.holds hG h.wf h.holds
  · show Coherent t.trace
    rw [hl]
    exact h.coherent.append hp

/-! ## 変更の印も参照もないページ -/

/-- 枠 `i` にあるページ `p` に、変更の印も参照もない。プールの中身は `c` に復号される。 -/
structure State.Idle (cfg : Config) (G : Gcm) (s : State) (p : Int) (i : Nat) (c : Page) : Prop where
  wf : s.Wf cfg
  resident : s.l1.get p = some ⟨p, i⟩
  clean : tagBit (s.epcArr i) = false
  unlinked : s.l1.refCount p = 0
  backed : s.Backed G p c

/-- 次の追い出しのあと、ページ `p` は枠にないか、枠にあるページが一つ減っている。 -/
theorem State.Idle.evict (hG : G.Correct) (h : s.Idle cfg G p i c) : ∃ it l1 t,
    s.l1.getPageIndexToEvict = .ok (it, l1) ∧ tryEvictPage G { s with l1 := l1 } it = .ok t ∧ t.Backed G p c ∧
      (t.l1.get p = none ∨ t.Idle cfg G p i c ∧ t.l1.pageCacheSize < s.l1.pageCacheSize) := by
  have hmem := (h.wf.queued p).mpr ⟨_, h.resident⟩
  have hpos : 0 < s.l1.pageCacheSize := by
    rw [h.wf.size]
    exact List.length_pos_of_mem hmem
  obtain ⟨it, l1, t, hscan, hev⟩ := evict_progress hG h.wf hmem h.unlinked
  refine ⟨it, l1, t, hscan, hev, ?_⟩
  obtain ⟨hit, hz, r, rfl⟩ := PageCache.getPageIndexToEvict_ok hscan
  obtain ⟨hwr, hsr, hperm⟩ := PageCache.getPageIndexToEvict_ring h.wf.ring hscan
  obtain ⟨_, ⟨ht, rfl⟩ | ⟨ht, e, he, rfl⟩⟩ := tryEvictPage_ok_iff.mp hev
  · refine ⟨h.backed, ?_⟩
    have hget := State.get_drop (e := none) (r := r) h.wf it p
    by_cases hp : p = it.pageIndex
    · left
      rw [if_pos hp] at hget
      exact hget
    · right
      rw [if_neg hp, h.resident] at hget
      exact ⟨⟨h.wf.drop hit ht hwr hsr hperm, hget, h.clean, h.unlinked, h.backed⟩, Nat.sub_lt hpos Nat.one_pos⟩
  · have hp : p ≠ it.pageIndex := by
      intro hp
      rw [← hp, h.resident] at hit
      rw [← Option.some.inj hit, h.clean] at ht
      cases ht
    have hb := (State.Backed.writeBack_ne (e := e) (c := c) hp (h.wf.page_range _ _ h.resident)
      (h.wf.page_range _ _ hit)).mpr h.backed
    have hwb : (s.writeBack it e).Wf cfg := h.wf.writeBack
    have hget := State.get_drop (e := some e) (r := r) hwb it p
    rw [if_neg hp] at hget
    have hne : i ≠ it.epc := fun hi => hp (h.wf.epc_inj _ _ _ _ h.resident hit hi)
    refine ⟨hb, Or.inr ⟨⟨?_, hget.trans h.resident, ?_, h.unlinked, hb⟩, Nat.sub_lt hpos Nat.one_pos⟩⟩
    · exact h.wf.writeBack.drop hit (by simp [State.writeBack]) hwr hsr hperm
    · show tagBit (Function.update s.epcArr it.epc _ i) = false
      rw [Function.update_of_ne hne]
      exact h.clean

end Eleos.Pager
