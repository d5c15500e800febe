import Eleos.Pager.Lemmas.Bias
import Eleos.Pager.Pointer

/-!
# `Aptr` の値の範囲と番地

`offset` と `page` はいつも `int` に収まる。折り返さない計算では、番地は整数の上の計算に従う。
-/

namespace Eleos.Pager

variable {cfg : Config} {G : Gcm} {s s' : Sys} {a a' b : Aptr} {d pool : Nat} {p : Int} {C : Aptr → Prop}

/-! ## 値の範囲 -/

/-- 空でない `Aptr` の `offset` と `page` は `int` に収まる。 -/
def Aptr.Ints (a : Aptr) : Prop := 0 ≤ a.basePageIndex → FitsInt a.offset ∧ FitsInt a.page

theorem construct_eq {x : Int} {n : Nat} (h : Aptr.construct x n = .ok a) :
    a = ⟨none, -1, x % pageSize + pageSize, false, int32 (x / pageSize), n⟩ := by
  unfold Aptr.construct at h
  dsimp only at h
  split at h
  · cases h
    rfl
  · cases h

theorem Aptr.Ints.of_null (h : a.basePageIndex < 0) : a.Ints := fun h₀ => absurd h (Int.not_lt.mpr h₀)

theorem construct_ints {x : Int} {n : Nat} (h : Aptr.construct x n = .ok a) : a.Ints := by
  intro _
  rw [construct_eq h]
  unfold FitsInt pageSize
  dsimp only
  omega

theorem doCopy_ints : a.doCopy.Ints := fun _ => ⟨int32_range _, int32_range _⟩

theorem Aptr.Ints.move {n : Nat} {k : Int} (h : a.Ints) : (a.move n k).Ints := fun h₀ => ⟨int32_range _, (h h₀).2⟩

theorem retarget_page {st st' : State} (h : retarget st a = .ok (st', a', p)) :
    a'.page = int32 (a.page + a.offset / pageSize) ∧ p = int32 (a.basePageIndex + a'.page) := by
  unfold retarget at h
  dsimp only at h
  split at h
  all_goals
    obtain ⟨_, _, h⟩ := bind_ok_iff.mp h
    obtain ⟨_, _, h⟩ := bind_ok_iff.mp h
    cases h
    exact ⟨rfl, rfl⟩

theorem pageFault_page {st st' : State} {host : (Nat → UInt8) → Nat → UInt8}
    (h : pageFault cfg G host st a = .ok (st', a')) : a'.page = int32 (a.page + a.offset / pageSize) := by
  obtain ⟨⟨s₁, b, p⟩, hr, h⟩ := bind_ok_iff.mp h
  have hb := (retarget_page hr).1
  dsimp only at h
  split at h
  · cases h
    exact hb
  · obtain ⟨_, _, h⟩ := bind_ok_iff.mp h
    obtain ⟨_, _, h⟩ := bind_ok_iff.mp h
    cases h
    exact hb

theorem pageFault_ints {st st' : State} {host : (Nat → UInt8) → Nat → UInt8}
    (h : pageFault cfg G host st a = .ok (st', a')) : a'.Ints := by
  intro _
  refine ⟨?_, ?_⟩
  · rw [(pageFault_fields h).2.1]
    unfold FitsInt pageSize
    omega
  · rw [pageFault_page h]
    exact int32_range _

theorem deref_ints {st st' : State} {x : Nat} {host : (Nat → UInt8) → Nat → UInt8} (ha : a.Ints)
    (h : deref cfg G host st a = .ok (st', a', x)) : a'.Ints := by
  unfold deref at h
  cases hv : isValid a.offset with
  | true =>
      rw [hv, if_pos rfl] at h
      obtain ⟨_, hp, h⟩ := bind_ok_iff.mp h
      cases hp
      obtain ⟨_, _, h⟩ := bind_ok_iff.mp h
      cases h
      exact ha
  | false =>
      rw [hv, if_neg Bool.false_ne_true] at h
      obtain ⟨_, hp, h⟩ := bind_ok_iff.mp h
      obtain ⟨_, _, h⟩ := bind_ok_iff.mp h
      cases h
      exact pageFault_ints hp

theorem reset_ints {st st' : State} (h : a.reset st = .ok (st', a')) : a'.Ints := by
  apply Aptr.Ints.of_null
  unfold Aptr.reset at h
  dsimp only at h
  split at h
  · cases h
    exact Int.negSucc_lt_zero 0
  · obtain ⟨_, _, h⟩ := bind_ok_iff.mp h
    cases h
    exact Int.negSucc_lt_zero 0

/-- どの `Aptr` の値も範囲に収まる。 -/
def Sys.Ints (s : Sys) : Prop := ∀ a, some a ∈ s.aptrs → a.Ints

theorem Sys.Ints.append {t : State} {o : Aptr} (h : s.Ints) (ho : o.Ints) :
    Sys.Ints { state := t, aptrs := s.aptrs ++ [some o] } := by
  intro b hb
  rcases List.mem_append.mp hb with hb | hb
  · exact h b hb
  · cases List.mem_singleton.mp hb
    exact ho

theorem Sys.Ints.set {t : State} {o : Option Aptr} (h : s.Ints) (ho : ∀ b, o = some b → b.Ints) :
    (Sys.set { state := t, aptrs := s.aptrs } d o).Ints := by
  intro b hb
  rcases List.mem_or_eq_of_mem_set hb with hb | rfl
  · exact h b hb
  · exact ho b rfl

theorem Sys.Ints.step {op : Op} (h : s.Ints) (hs : s.step cfg G id op = .ok s') : s'.Ints := by
  have hget {d : Nat} {a : Aptr} (ha : s.get d = .ok a) : a.Ints := h a (Sys.mem_of_get ha)
  have hsome {a a' : Aptr} (ha : a.Ints) (he : some a = some a') : a'.Ints := Option.some.inj he ▸ ha
  cases op with
  | construct x n =>
      obtain ⟨a, ha, hs⟩ := bind_ok_iff.mp hs
      cases hs
      exact h.append (construct_ints ha)
  | null junk =>
      cases hs
      exact h.append (.of_null (Int.negSucc_lt_zero 0))
  | copy src =>
      obtain ⟨a, _, hs⟩ := bind_ok_iff.mp hs
      cases hs
      exact h.append doCopy_ints
  | assign dst src =>
      obtain ⟨a, _, hs⟩ := bind_ok_iff.mp hs
      obtain ⟨⟨t, a'⟩, hr, hs⟩ := bind_ok_iff.mp hs
      obtain ⟨b, _, hs⟩ := bind_ok_iff.mp hs
      cases hs
      have h₁ := Sys.Ints.set (d := dst) (t := t) h fun b => hsome (reset_ints hr)
      exact Sys.Ints.set h₁ fun b => hsome doCopy_ints
  | move d n k =>
      obtain ⟨a, ha, hs⟩ := bind_ok_iff.mp hs
      cases hs
      exact Sys.Ints.set h fun b => hsome (hget ha).move
  | hint d b =>
      obtain ⟨a, ha, hs⟩ := bind_ok_iff.mp hs
      cases hs
      have ha₀ := hget ha
      have ha' : Aptr.Ints { a with hintWrite := b } := ha₀
      exact Sys.Ints.set h fun _ => hsome ha'
  | read d =>
      obtain ⟨a, ha, hs⟩ := bind_ok_iff.mp hs
      obtain ⟨⟨t, a', x⟩, hd, hs⟩ := bind_ok_iff.mp hs
      cases hs
      exact Sys.Ints.set h fun b => hsome (deref_ints (hget ha) hd)
  | write d v =>
      obtain ⟨a, ha, hs⟩ := bind_ok_iff.mp hs
      obtain ⟨⟨t, a', x⟩, hd, hs⟩ := bind_ok_iff.mp hs
      cases hs
      exact Sys.Ints.set h fun b => hsome (deref_ints (hget ha) hd)
  | reset d =>
      obtain ⟨a, ha, hs⟩ := bind_ok_iff.mp hs
      obtain ⟨⟨t, a'⟩, hr, hs⟩ := bind_ok_iff.mp hs
      cases hs
      exact Sys.Ints.set h fun b => hsome (reset_ints hr)
  | destroy d =>
      obtain ⟨a, ha, hs⟩ := bind_ok_iff.mp hs
      obtain ⟨⟨t, a'⟩, hr, hs⟩ := bind_ok_iff.mp hs
      cases hs
      exact Sys.Ints.set h fun b hb => nomatch hb

theorem Reach.ints (h : Reach cfg G s) : s.Ints := by
  induction h with
  | init epc pool key rand => exact fun a ha => nomatch ha
  | step _ _ hs ih => exact ih.step hs

/-! ## 番地の計算 -/

/-- `Built` の `Aptr` の値の範囲。 -/
structure Aptr.Sized (a : Aptr) : Prop where
  base : 0 ≤ a.basePageIndex ∧ a.basePageIndex < 524288
  offset : FitsInt a.offset
  page : FitsInt a.page

theorem construct_of_pool {x : Int} (n : Nat) (hpool : pool ≤ 2147483648) (h₀ : 0 ≤ x) (h₁ : x < pool) :
    Aptr.construct x n = .ok ⟨none, -1, x % pageSize + pageSize, false, x / pageSize, n⟩ := by
  have hbase : int32 (x / pageSize) = x / pageSize := by
    unfold pageSize
    exact int32_of_range (by omega) (by omega)
  unfold Aptr.construct
  dsimp only
  rw [hbase, if_pos (by unfold pageSize; omega)]

theorem move_offset (a : Aptr) (n : Nat) (k : Int) : (a.move n k).offset = int32 (a.offset + k * n) := by
  have hmul : uint64 (uint64 k * n) = k * n % 18446744073709551616 := by
    unfold uint64
    rw [Int.mul_emod, Int.emod_emod, ← Int.mul_emod]
  unfold Aptr.move
  dsimp only
  rw [hmul]
  generalize k * (n : Int) = v
  unfold int32 uint64
  omega

theorem Built.sized (hpool : pool ≤ 2147483648) (h : Built cfg G pool C a) : a.Sized := by
  induction h with
  | construct h₀ h₁ hc =>
      cases (construct_of_pool _ hpool h₀ h₁).symm.trans hc
      refine ⟨?_, ?_, ?_⟩
      · unfold pageSize
        dsimp only
        omega
      · unfold FitsInt pageSize
        dsimp only
        omega
      · show FitsInt (-1)
        decide
  | copy _ _ _ ih => exact ⟨ih.base, int32_range _, int32_range _⟩
  | move n k _ _ ih => exact ⟨ih.base, int32_range _, ih.page⟩
  | @fault a a' st st' host _ _ _ hf ih =>
      have hints := pageFault_ints hf
      have hbase := (pageFault_fields hf).1
      have hb : 0 ≤ a'.basePageIndex ∧ a'.basePageIndex < 524288 := by
        rw [hbase]
        exact ih.base
      exact ⟨hb, (hints hb.1).1, (hints hb.1).2⟩

theorem Aptr.Sized.doCopy_addr (h : FitsInt (a.offset + pageSize)) (hp : -2147483648 < a.page)
    (ha : a.Sized) : a.doCopy.addr = a.addr := by
  have h₁ := ha.page.2
  unfold Aptr.doCopy Aptr.addr
  dsimp only
  rw [int32_of_range h.1 h.2, int32_of_range (by omega) (by omega)]
  ring

theorem move_addr {n : Nat} {k : Int} (h : FitsInt (a.offset + k * n)) : (a.move n k).addr = a.addr + k * n := by
  have hoff := move_offset a n k
  rw [int32_of_range h.1 h.2] at hoff
  unfold Aptr.addr
  rw [hoff]
  show (a.basePageIndex + a.page) * pageSize + (a.offset + k * n) = _
  ring

/-- プールの中の番地では、`page_fault` の計算は折り返さない。 -/
theorem Aptr.Sized.fault_page (hpool : pool ≤ 2147483648) (ha : a.Sized) (h₀ : 0 ≤ a.addr) (h₁ : a.addr < pool) :
    int32 (a.page + a.offset / pageSize) = a.page + a.offset / pageSize ∧
      a.basePageIndex + (a.page + a.offset / pageSize) = a.addr / pageSize ∧ FitsInt (a.addr / pageSize * pageSize) := by
  have hb := ha.base
  have hp := ha.page
  unfold FitsInt at *
  unfold Aptr.addr at *
  unfold pageSize at *
  refine ⟨int32_of_range (by omega) (by omega), by omega, by omega, by omega⟩

/-! ## 枠にあるページの番号 -/

/-- 表の項目のページは、どれもプールの中にある。 -/
def PageCache.InRange (cfg : Config) (c : PageCache) : Prop :=
  ∀ b, ∀ it ∈ c.table.buckets b, 0 ≤ it.pageIndex ∧ it.pageIndex < cfg.poolPages

theorem PageCache.InRange.get {c : PageCache} {it : Item} (h : c.InRange cfg) (hg : c.get p = some it) :
    it.pageIndex = p ∧ 0 ≤ p ∧ p < cfg.poolPages := by
  have hp : it.pageIndex = p := Table.key_of_get hg
  refine ⟨hp, ?_⟩
  rw [← hp]
  exact h _ it (List.mem_of_find?_eq_some hg)

theorem Fetch.inRange {host : (Nat → UInt8) → Nat → UInt8} {t u : State} {i : Nat} (hd : a.Derefable cfg) (h : t.l1.InRange cfg)
    (hf : Fetch cfg G host t a u i) : u.l1.InRange cfg := by
  cases hf with
  | hit _ _ => exact h
  | minor _ _ => exact h
  | @major s₁ _ _ hv hg hm hl =>
      have h₁ : s₁.l1.InRange cfg := by
        rcases makeRoom_ok_iff.mp hm with ⟨_, rfl⟩ | ⟨_, it, c, hscan, hev⟩
        · exact h
        · obtain ⟨_, _, r, hc⟩ := PageCache.getPageIndexToEvict_ok hscan
          have hc' : c.InRange cfg := by
            rw [hc]
            exact h
          have hdrop {t : State} (ht : t.l1.InRange cfg) (e : Option Seal) : (t.drop it e).l1.InRange cfg := by
            intro b jt hjt
            unfold State.drop Table.remove at hjt
            dsimp only at hjt
            by_cases hb : b = t.l1.table.hash it.pageIndex
            · subst hb
              rw [Function.update_self] at hjt
              exact ht _ jt (List.mem_of_mem_eraseP hjt)
            · rw [Function.update_of_ne hb] at hjt
              exact ht _ jt hjt
          obtain ⟨_, ⟨_, rfl⟩ | ⟨_, e, _, rfl⟩⟩ := tryEvictPage_ok_iff.mp hev
          · exact hdrop hc' none
          · exact hdrop (by exact hc') (some e)
      have hn := makeRoom_get_none hm hg
      obtain ⟨rest, e, _, _, _, rfl⟩ := (loadPage_ok_iff (by exact hn)).mp hl
      intro b jt hjt
      unfold State.install Table.append at hjt
      dsimp only at hjt
      by_cases hb : b = s₁.l1.table.hash a.target
      · subst hb
        rw [Function.update_self] at hjt
        rcases List.mem_append.mp hjt with hjt | hjt
        · exact h₁ _ jt hjt
        · cases List.mem_singleton.mp hjt
          exact ⟨hd.target_nonneg, hd.target_lt⟩
      · rw [Function.update_of_ne hb] at hjt
        exact h₁ _ jt hjt

theorem Reach.inRange (h : Reach cfg G s) : s.state.l1.InRange cfg := by
  induction h with
  | init epc pool key rand => exact fun b it hit => nomatch hit
  | step hr hg hs ih =>
      cases step_move hr.pinned hg hs with
      | add _ _ => exact ih
      | edit _ _ _ _ => exact ih
      | release _ _ => exact ih
      | @access d a s₁ i w ha hd _ hf =>
          have h₁ := hf.inRange hd ih
          show PageCache.InRange cfg (State.access _ _ _ _).l1
          rw [State.access_l1, State.mark_l1]
          exact h₁

end Eleos.Pager
