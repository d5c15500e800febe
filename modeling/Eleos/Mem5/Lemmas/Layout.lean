import Eleos.Lib.DList
import Eleos.Mem5.Heap
import Eleos.Mem5.Lemmas.Loops

/-!
# 空きの並びとブロックの分割

空きの並びの中身を `free` に取り出し、プールの分割と合わせて不変条件とする。
割り当てと解放の途中で、並びから外して手に持っているブロックを `hand` に置く。
-/

namespace Eleos.Mem5

open Mem5Global

variable {m m' : Mem5Global} {free : Nat → List Int} {live hand : Set Block} {i j : Int} {k n : Nat} {c : UInt8}

/-! ## 空きの並び -/

/-- `aiFreelist` は `free` の並びを表す。 -/
structure Mem5Global.Lists (m : Mem5Global) (free : Nat → List Int) : Prop where
  head : ∀ k ≤ logMax, m.aiFreelist k = (free k).headD (-1)
  linked : ∀ k, Linked (-1) m.next m.prev (-1) (free k)
  nodup : ∀ k, (free k).Nodup
  mark : ∀ k, ∀ s ∈ free k, m.ctrl s = ctrlFree ||| UInt8.ofNat k
  bound : ∀ k, ∀ s ∈ free k, k ≤ logMax ∧ m.In s

namespace Mem5Global

theorem Lists.log_inj (h : m.Lists free) (hj : i ∈ free n) (hk : i ∈ free k) : n = k := by
  rw [← mark_logsize (h.bound n i hj).1, ← mark_logsize (h.bound k i hk).1, ← h.mark n i hj, ← h.mark k i hk]

theorem Lists.not_nil (h : m.Lists free) : (-1 : Int) ∉ free k := by
  intro hm
  have := (h.bound k _ hm).2.1
  omega

theorem Lists.head_lt (h : m.Lists free) (hi : m.In i) (hk : k ≤ logMax) : m.aiFreelist k < m.nBlock := by
  have h₁ := hi.1.trans_lt hi.2
  rw [h.head k hk]
  cases hl : free k with
  | nil => exact lt_trans (by decide) h₁
  | cons s l => exact (h.bound k s (by rw [hl]; exact List.mem_cons_self)).2.2

theorem Lists.neg_one_le (h : m.Lists free) (hk : k ≤ logMax) : -1 ≤ m.aiFreelist k := by
  rw [h.head k hk]
  cases hl : free k with
  | nil => exact Int.le_refl _
  | cons s l => exact le_trans (by decide) (h.bound k s (by rw [hl]; exact List.mem_cons_self)).2.1

theorem Lists.sized (h : m.Lists free) (hi : i ∈ free k) : m.Sized i k := by
  obtain ⟨hk, hin⟩ := h.bound k i hi
  exact ⟨hin, hk, by rw [h.mark k i hi]; exact mark_logsize hk⟩

/-- 外すブロックの前後。 -/
theorem Lists.neighbours (h : m.Lists free) (hi : i ∈ free k) :
    (m.next i = -1 ∨ m.next i ∈ free k) ∧ (m.prev i = -1 ∨ m.prev i ∈ free k) := by
  obtain ⟨l₁, l₂, hl⟩ := List.append_of_mem hi
  have hlink := h.linked k
  rw [hl] at hlink ⊢
  constructor
  · rcases hlink.next_mem with h | h
    · exact Or.inl h
    · exact Or.inr (List.mem_append_right l₁ (List.mem_cons_of_mem i h))
  · cases l₁ with
    | nil => exact Or.inl hlink.1
    | cons a l₁ => exact Or.inr (List.mem_append_left _ (hlink.prev_mem (by simp)))

theorem Lists.inside (h : m.Lists free) (hi : i ∈ free k) : m.next i < m.nBlock ∧ m.prev i < m.nBlock := by
  have hin := (h.bound k i hi).2
  have h₁ := hin.1.trans_lt hin.2
  obtain ⟨hn, hp⟩ := h.neighbours hi
  constructor
  · rcases hn with hn | hn
    · omega
    · exact (h.bound k _ hn).2.2
  · rcases hp with hp | hp
    · omega
    · exact (h.bound k _ hp).2.2

theorem bypass_aiFreelist {next prev : Int} : (m.bypass k next prev).aiFreelist =
    if prev < 0 then Function.update m.aiFreelist k next else m.aiFreelist := by
  unfold bypass
  split
  · rfl
  · rfl

theorem backTo_aiFreelist {next prev : Int} : (m.backTo next prev).aiFreelist = m.aiFreelist := by
  unfold backTo
  split
  · rfl
  · rfl

theorem unlinked_aiFreelist : (m.unlinked i k).aiFreelist =
    if m.prev i < 0 then Function.update m.aiFreelist k (m.next i) else m.aiFreelist := by
  rw [unlinked, backTo_aiFreelist, bypass_aiFreelist]

theorem Lists.unlink (hf : m.Fits) (h : m.Lists free) (hi : i ∈ free k) :
    (m.unlinked i k).Lists (Function.update free k ((free k).erase i)) := by
  obtain ⟨hn, hp⟩ := h.inside hi
  obtain ⟨hnn, hpp⟩ := h.neighbours hi
  obtain ⟨hk, hin⟩ := h.bound k i hi
  obtain ⟨l₁, l₂, hl⟩ := List.append_of_mem hi
  have hnd := h.nodup k
  have hlink := h.linked k
  have hnil := h.not_nil (k := k)
  rw [hl] at hnd hlink hnil
  have hil₁ : i ∉ l₁ := fun hm => (List.nodup_append.mp hnd).2.2 i hm i List.mem_cons_self rfl
  have herase : (free k).erase i = l₁ ++ l₂ := by
    rw [hl, List.erase_append_right _ hil₁, List.erase_cons_head]
  have hsub {s : Int} (hs : s ∈ l₁ ++ l₂) : s ∈ free k := by
    rw [hl]
    rcases List.mem_append.mp hs with hs | hs
    · exact List.mem_append_left _ hs
    · exact List.mem_append_right _ (List.mem_cons_of_mem i hs)
  have hmem {n : Nat} {s : Int} (hs : s ∈ Function.update free k ((free k).erase i) n) : s ∈ free n := by
    by_cases hnk : n = k
    · subst hnk
      rw [Function.update_self, herase] at hs
      exact hsub hs
    · rwa [Function.update_of_ne hnk] at hs
  have hnext {n : Nat} {s : Int} (hs : s ∈ free n) := unlinked_next (k := k) hf hn hp (h.bound n s hs).2
  have hprev {n : Nat} {s : Int} (hs : s ∈ free n) := unlinked_prev (k := k) hf hn hp (h.bound n s hs).2
  refine ⟨?_, ?_, ?_, ?_, ?_⟩
  · intro n hnle
    rw [unlinked_aiFreelist]
    by_cases hnk : n = k
    · subst hnk
      rw [Function.update_self, herase]
      cases l₁ with
      | nil =>
          have hpi : m.prev i = -1 := hlink.1
          rw [if_pos (by omega), Function.update_self, hlink.next_eq []]
          rfl
      | cons a l₁ =>
          have hpi := (h.bound n _ (hsub (List.mem_append_left l₂ (hlink.prev_mem (by simp))))).2.1
          rw [if_neg (by omega), h.head n hnle, hl]
          rfl
    · rw [Function.update_of_ne hnk, ← h.head n hnle]
      split
      · exact Function.update_of_ne hnk _ _
      · rfl
  · intro n
    by_cases hnk : n = k
    · subst hnk
      rw [Function.update_self, herase]
      exact hlink.remove (List.nodup_cons.mpr ⟨hnil, hnd⟩) hnil (fun s hs => hnext (hsub hs)) fun s hs => hprev (hsub hs)
    · rw [Function.update_of_ne hnk]
      refine (h.linked n).congr ?_ ?_
      · intro s hs
        rw [hnext hs, if_neg]
        rintro rfl
        rcases hpp with hpp | hpp
        · exact h.not_nil (hpp ▸ hs)
        · exact hnk (h.log_inj hs hpp)
      · intro s hs
        rw [hprev hs, if_neg]
        rintro rfl
        rcases hnn with hnn | hnn
        · exact h.not_nil (hnn ▸ hs)
        · exact hnk (h.log_inj hs hnn)
  · intro n
    by_cases hnk : n = k
    · subst hnk
      rw [Function.update_self]
      exact (h.nodup n).erase i
    · rw [Function.update_of_ne hnk]
      exact h.nodup n
  · intro n s hs
    rw [unlinked_ctrl hf hn hp (h.bound n s (hmem hs)).2]
    exact h.mark n s (hmem hs)
  · intro n s hs
    obtain ⟨h₁, h₂⟩ := h.bound n s (hmem hs)
    exact ⟨h₁, h₂.1, by rw [unlinked_nBlock]; exact h₂.2⟩

theorem pushed_aiFreelist : (m.pushed i k).aiFreelist = Function.update m.aiFreelist k i := by
  unfold pushed
  rw [setHead, backTo_aiFreelist]
  rfl

section pushed

variable (hf : m.Fits) (hi : m.In i) (hx : m.aiFreelist k < m.nBlock) (hj : m.In j)
include hf hi hx hj

theorem pushed_ctrl : (m.pushed i k).ctrl j = m.ctrl j := by
  have hf₀ : (m.setNext i (m.aiFreelist k)).Fits := hf.of_eq rfl rfl
  have hf₁ : ((m.setNext i (m.aiFreelist k)).setPrev i (-1)).Fits := hf.of_eq rfl rfl
  rw [pushed, setHead_ctrl, backTo_ctrl hf₁ hx hj, ctrl_setPrev hf₀ hi hj, ctrl_setNext hf hi hj]

theorem pushed_next (h₁ : -1 ≤ m.aiFreelist k) :
    (m.pushed i k).next j = if j = i then m.aiFreelist k else m.next j := by
  have hf₀ : (m.setNext i (m.aiFreelist k)).Fits := hf.of_eq rfl rfl
  have hf₁ : ((m.setNext i (m.aiFreelist k)).setPrev i (-1)).Fits := hf.of_eq rfl rfl
  have h₂ := hf.nBlock_lt
  rw [pushed, setHead_next, backTo_next hf₁ hx hj, next_setPrev hf₀ hi hj, next_setNext hf hi hj,
    int32_of_range (by omega) (by omega)]

theorem pushed_prev : (m.pushed i k).prev j =
    if j = m.aiFreelist k then i else if j = i then -1 else m.prev j := by
  have hf₀ : (m.setNext i (m.aiFreelist k)).Fits := hf.of_eq rfl rfl
  have hf₁ : ((m.setNext i (m.aiFreelist k)).setPrev i (-1)).Fits := hf.of_eq rfl rfl
  have h₂ := hf.nBlock_lt
  obtain ⟨h₃, h₄⟩ := hi
  rw [pushed, setHead_prev, backTo_prev hf₁ hx hj, prev_setPrev hf₀ ⟨h₃, h₄⟩ hj,
    prev_setNext hf ⟨h₃, h₄⟩ hj, int32_of_range (by omega) (by omega)]
  rfl

end pushed

theorem Lists.push (hf : m.Fits) (h : m.Lists free) (hi : m.In i) (hk : k ≤ logMax) (hnew : ∀ n, i ∉ free n)
    (hmark : m.ctrl i = ctrlFree ||| UInt8.ofNat k) :
    (m.pushed i k).Lists (Function.update free k (i :: free k)) := by
  have hx := h.head_lt hi hk
  have hge := h.neg_one_le hk
  have hheadmem : m.aiFreelist k = -1 ∨ m.aiFreelist k ∈ free k := by
    rw [h.head k hk]
    cases free k with
    | nil => exact Or.inl rfl
    | cons s l => exact Or.inr List.mem_cons_self
  have hne : m.aiFreelist k ≠ i := by
    rcases hheadmem with he | he
    · have := hi.1
      omega
    · intro heq
      exact hnew k (heq ▸ he)
  have hmem {n : Nat} {s : Int} (hs : s ∈ Function.update free k (i :: free k) n) :
      (s = i ∧ n = k) ∨ s ∈ free n := by
    by_cases hnk : n = k
    · subst hnk
      rw [Function.update_self] at hs
      rcases List.mem_cons.mp hs with hs | hs
      · exact Or.inl ⟨hs, rfl⟩
      · exact Or.inr hs
    · rw [Function.update_of_ne hnk] at hs
      exact Or.inr hs
  have hin {n : Nat} {s : Int} (hs : s ∈ free n) := (h.bound n s hs).2
  have hsi {n : Nat} {s : Int} (hs : s ∈ free n) : s ≠ i := by
    rintro rfl
    exact hnew n hs
  refine ⟨?_, ?_, ?_, ?_, ?_⟩
  · intro n hnle
    rw [pushed_aiFreelist]
    by_cases hnk : n = k
    · subst hnk
      rw [Function.update_self, Function.update_self]
      rfl
    · rw [Function.update_of_ne hnk, Function.update_of_ne hnk]
      exact h.head n hnle
  · intro n
    by_cases hnk : n = k
    · subst hnk
      rw [Function.update_self]
      refine (h.linked n).push (List.nodup_cons.mpr ⟨hnew n, h.nodup n⟩) ?_ ?_ ?_ ?_
      · rw [pushed_next hf hi hx hi hge, if_pos rfl, h.head n hk]
      · rw [pushed_prev hf hi hx hi, if_neg hne.symm, if_pos rfl]
      · intro s hs
        rw [pushed_next hf hi hx (hin hs) hge, if_neg (hsi hs)]
      · intro s hs
        rw [pushed_prev hf hi hx (hin hs), if_neg (hsi hs), h.head n hk]
    · rw [Function.update_of_ne hnk]
      refine (h.linked n).congr ?_ ?_
      · intro s hs
        rw [pushed_next hf hi hx (hin hs) hge, if_neg (hsi hs)]
      · intro s hs
        rw [pushed_prev hf hi hx (hin hs), if_neg (hsi hs), if_neg]
        rintro rfl
        rcases hheadmem with he | he
        · exact h.not_nil (he ▸ hs)
        · exact hnk (h.log_inj hs he)
  · intro n
    by_cases hnk : n = k
    · subst hnk
      rw [Function.update_self]
      exact List.nodup_cons.mpr ⟨hnew n, h.nodup n⟩
    · rw [Function.update_of_ne hnk]
      exact h.nodup n
  · intro n s hs
    rcases hmem hs with ⟨rfl, rfl⟩ | hs
    · rw [pushed_ctrl hf hi hx hi]
      exact hmark
    · rw [pushed_ctrl hf hi hx (hin hs)]
      exact h.mark n s hs
  · intro n s hs
    rcases hmem hs with ⟨rfl, rfl⟩ | hs
    · exact ⟨hk, hi.1, by rw [pushed_nBlock]; exact hi.2⟩
    · obtain ⟨h₁, h₂⟩ := h.bound n s hs
      exact ⟨h₁, h₂.1, by rw [pushed_nBlock]; exact h₂.2⟩

theorem Lists.setCtrl (hf : m.Fits) (h : m.Lists free) (hi : m.In i) (hnew : ∀ n, i ∉ free n) :
    (m.setCtrl i c).Lists free := by
  have hin {n : Nat} {s : Int} (hs : s ∈ free n) := (h.bound n s hs).2
  refine ⟨h.head, ?_, h.nodup, ?_, h.bound⟩
  · intro n
    refine (h.linked n).congr ?_ ?_
    · intro s hs
      exact next_setCtrl hf hi (hin hs)
    · intro s hs
      exact prev_setCtrl hf hi (hin hs)
  · intro n s hs
    rw [ctrl_setCtrl hf hi (hin hs), if_neg]
    · exact h.mark n s hs
    · rintro rfl
      exact hnew n hs

end Mem5Global

/-! ## プールの分割 -/

/-- 空きの並びのブロックの集合。 -/
def freeSet (free : Nat → List Int) : Set Block := {b | b.start ∈ free b.log}

/-- `live` のバイトは変わらない。 -/
def Mem5Global.Spares (m m' : Mem5Global) (live : Set Block) : Prop :=
  ∀ x : Nat, (∃ b ∈ live, b.start * m.szAtom ≤ x ∧ (x : Int) < b.stop * m.szAtom) → m'.zPool x = m.zPool x

/-- 割り当ての途中の状態。`hand` は並びから外したブロックである。 -/
structure Mem5Global.Layout (m : Mem5Global) (free : Nat → List Int) (live hand : Set Block) : Prop where
  fits : m.Fits
  lists : m.Lists free
  tiling : Tiling m.nBlock (freeSet free ∪ live ∪ hand)
  used : ∀ b ∈ live, m.ctrl b.start = UInt8.ofNat b.log
  live_hand : ∀ b ∈ live, b ∉ hand
  free_apart : ∀ b ∈ live ∪ hand, b ∉ freeSet free

namespace Mem5Global

theorem Spares.refl : m.Spares m live := fun _ _ => rfl

theorem Spares.trans {m₁ : Mem5Global} (h : m.Spares m₁ live) (ha : m₁.szAtom = m.szAtom) (h' : m₁.Spares m' live) :
    m.Spares m' live := by
  intro x hx
  rw [← h x hx]
  exact h' x (by rw [ha]; exact hx)

section layout

variable {b : Block}

theorem Layout.in_of_mem (h : m.Layout free live hand) (hb : b ∈ freeSet free ∪ live ∪ hand) (hi : b.Has i) : m.In i := by
  obtain ⟨h₁, h₂⟩ := h.tiling.inside b hb
  exact ⟨h₁.trans hi.1, hi.2.trans_le h₂⟩

/-- 手に持っているブロックの中からは、ほかのブロックは始まらない。 -/
theorem Layout.hand_apart (h : m.Layout free live hand) (hb : b ∈ hand) (hi : b.Has i) :
    (∀ n, i ∉ free n) ∧ ∀ c ∈ live, c.start ≠ i := by
  have hbU : b ∈ freeSet free ∪ live ∪ hand := Or.inr hb
  constructor
  · intro n hm
    have hc : (⟨i, n⟩ : Block) ∈ freeSet free := hm
    have heq := h.tiling.disjoint b hbU ⟨i, n⟩ (Or.inl (Or.inl hc)) i hi (Block.has_start ⟨i, n⟩)
    exact h.free_apart b (Or.inr hb) (heq ▸ hc)
  · rintro c hc rfl
    have heq := h.tiling.disjoint b hbU c (Or.inl (Or.inr hc)) c.start hi c.has_start
    exact h.live_hand c hc (heq ▸ hb)

theorem Layout.not_linkByte {d : Block} {x : Nat} (h : m.Layout free live hand) (hb : b ∈ live)
    (hx : b.start * m.szAtom ≤ x ∧ (x : Int) < b.stop * m.szAtom) (hd : d ∈ freeSet free ∪ hand) :
    ¬ m.LinkByte d.start x := by
  rintro ⟨h₁, h₂⟩
  have hA := h.fits.atom
  have h₃ : b.start ≤ d.start := by
    apply Int.le_of_lt_add_one
    apply lt_of_mul_lt_mul_right (a := m.szAtom) _ (by omega)
    rw [add_mul]
    omega
  have h₄ : d.start < b.stop := lt_of_mul_lt_mul_right (a := m.szAtom) (by omega) (by omega)
  have hdU : d ∈ freeSet free ∪ live ∪ hand := by
    rcases hd with hd | hd
    · exact Or.inl (Or.inl hd)
    · exact Or.inr hd
  have heq := h.tiling.disjoint b (Or.inl (Or.inr hb)) d hdU d.start ⟨h₃, h₄⟩ d.has_start
  rcases hd with hd | hd
  · exact h.free_apart b (Or.inl hb) (heq ▸ hd)
  · exact h.live_hand b hb (heq ▸ hd)

theorem Layout.not_ctrlByte {x : Nat} (h : m.Layout free live hand) (hb : b ∈ live)
    (hx : b.start * m.szAtom ≤ x ∧ (x : Int) < b.stop * m.szAtom) (hi : m.In i) : ¬ m.CtrlByte i x := by
  intro hc
  have hA := h.fits.atom
  have hin := (h.tiling.inside b (Or.inl (Or.inr hb))).2
  have hmul : b.stop * m.szAtom ≤ m.nBlock * m.szAtom := Int.mul_le_mul_of_nonneg_right hin (by omega)
  have h₀ := hi.1
  unfold CtrlByte at hc
  omega

/-! ## 一つの書き換え -/

theorem unlinked_zPool {x : Nat} (hf : m.Fits) (hn : m.next i < m.nBlock) (hp : m.prev i < m.nBlock)
    (hxp : 0 ≤ m.prev i → ¬ m.LinkByte (m.prev i) x) (hxn : 0 ≤ m.next i → ¬ m.LinkByte (m.next i) x) :
    (m.unlinked i k).zPool x = m.zPool x := by
  have h₁ : (m.bypass k (m.next i) (m.prev i)).zPool x = m.zPool x := by
    by_cases hneg : m.prev i < 0
    · rw [bypass, if_pos hneg]
      rfl
    · rw [bypass, if_neg hneg]
      exact zPool_setNext hf ⟨Int.not_lt.mp hneg, hp⟩ (hxp (Int.not_lt.mp hneg))
  have hfb : (m.bypass k (m.next i) (m.prev i)).Fits := hf.of_eq bypass_szAtom bypass_nBlock
  rw [unlinked, ← h₁]
  by_cases hpos : 0 ≤ m.next i
  · rw [backTo, if_pos hpos]
    refine zPool_setPrev hfb ⟨hpos, by rw [bypass_nBlock]; exact hn⟩ ?_
    unfold LinkByte
    rw [bypass_szAtom]
    exact hxn hpos
  · rw [backTo, if_neg hpos]

theorem pushed_zPool {x : Nat} (hf : m.Fits) (hi : m.In i) (hh : m.aiFreelist k < m.nBlock) (hxi : ¬ m.LinkByte i x)
    (hxh : 0 ≤ m.aiFreelist k → ¬ m.LinkByte (m.aiFreelist k) x) : (m.pushed i k).zPool x = m.zPool x := by
  have hf₀ : (m.setNext i (m.aiFreelist k)).Fits := hf.of_eq rfl rfl
  have hf₁ : ((m.setNext i (m.aiFreelist k)).setPrev i (-1)).Fits := hf.of_eq rfl rfl
  have h₁ : ((m.setNext i (m.aiFreelist k)).setPrev i (-1)).zPool x = m.zPool x := by
    rw [zPool_setPrev hf₀ hi hxi, zPool_setNext hf hi hxi]
  have h₂ : (m.pushed i k).zPool x = (((m.setNext i (m.aiFreelist k)).setPrev i (-1)).backTo (m.aiFreelist k) i).zPool x :=
    rfl
  rw [h₂, ← h₁]
  by_cases hpos : 0 ≤ m.aiFreelist k
  · rw [backTo, if_pos hpos]
    exact zPool_setPrev hf₁ ⟨hpos, hh⟩ (hxh hpos)
  · rw [backTo, if_neg hpos]

theorem mem_freeSet_erase (h : m.Lists free) (hi : i ∈ free k) :
    b ∈ freeSet (Function.update free k ((free k).erase i)) ↔ b ∈ freeSet free ∧ b ≠ ⟨i, k⟩ := by
  cases b with
  | mk s n =>
      unfold freeSet
      simp only [Set.mem_ofPred_eq, ne_eq, Block.mk.injEq]
      by_cases hnk : n = k
      · subst hnk
        rw [Function.update_self, (h.nodup n).mem_erase_iff]
        tauto
      · rw [Function.update_of_ne hnk]
        tauto

theorem mem_freeSet_cons : b ∈ freeSet (Function.update free k (i :: free k)) ↔ b ∈ freeSet free ∨ b = ⟨i, k⟩ := by
  cases b with
  | mk s n =>
      unfold freeSet
      simp only [Set.mem_ofPred_eq, Block.mk.injEq]
      by_cases hnk : n = k
      · subst hnk
        rw [Function.update_self, List.mem_cons]
        tauto
      · rw [Function.update_of_ne hnk]
        tauto

theorem Layout.unlink (h : m.Layout free live hand) (hi : i ∈ free k) :
    memsys5Unlink m i k = .ok (m.unlinked i k) ∧
      (m.unlinked i k).Layout (Function.update free k ((free k).erase i)) live (insert ⟨i, k⟩ hand) ∧
      m.Spares (m.unlinked i k) live := by
  obtain ⟨hn, hp⟩ := h.lists.inside hi
  obtain ⟨hnn, hpp⟩ := h.lists.neighbours hi
  have hb : (⟨i, k⟩ : Block) ∈ freeSet free := hi
  have hmem {b : Block} := mem_freeSet_erase (b := b) h.lists hi
  refine ⟨memsys5Unlink_ok h.fits (h.lists.sized hi) hn hp, ⟨?_, h.lists.unlink h.fits hi, ?_, ?_, ?_, ?_⟩, ?_⟩
  · exact h.fits.of_eq unlinked_szAtom unlinked_nBlock
  · rw [unlinked_nBlock]
    convert h.tiling using 1
    ext b
    simp only [Set.mem_union, Set.mem_insert_iff, hmem]
    by_cases hbi : b = ⟨i, k⟩
    · subst hbi
      simp [hb]
    · simp [hbi]
  · intro b hbl
    rw [unlinked_ctrl h.fits hn hp (h.in_of_mem (Or.inl (Or.inr hbl)) b.has_start)]
    exact h.used b hbl
  · intro b hbl hbh
    rcases hbh with rfl | hbh
    · exact h.free_apart _ (Or.inl hbl) hb
    · exact h.live_hand b hbl hbh
  · intro b hbl hbf
    obtain ⟨hbf, hne⟩ := hmem.mp hbf
    rcases hbl with hbl | rfl | hbl
    · exact h.free_apart b (Or.inl hbl) hbf
    · exact hne rfl
    · exact h.free_apart b (Or.inr hbl) hbf
  · rintro x ⟨b, hbl, hx⟩
    refine unlinked_zPool h.fits hn hp ?_ ?_
    · intro hpos
      have hd : (⟨m.prev i, k⟩ : Block) ∈ freeSet free := hpp.resolve_left (by omega)
      exact h.not_linkByte hbl hx (Or.inl hd)
    · intro hpos
      have hd : (⟨m.next i, k⟩ : Block) ∈ freeSet free := hnn.resolve_left (by omega)
      exact h.not_linkByte hbl hx (Or.inl hd)

theorem Layout.push (h : m.Layout free live hand) (hb : (⟨i, k⟩ : Block) ∈ hand)
    (hmark : m.ctrl i = ctrlFree ||| UInt8.ofNat k) : memsys5Link m i k = .ok (m.pushed i k) ∧
      (m.pushed i k).Layout (Function.update free k (i :: free k)) live (hand \ {⟨i, k⟩}) ∧
      m.Spares (m.pushed i k) live := by
  have hbU : (⟨i, k⟩ : Block) ∈ freeSet free ∪ live ∪ hand := Or.inr hb
  have hin := h.in_of_mem hbU (Block.has_start ⟨i, k⟩)
  have hk : k ≤ logMax := by
    have := h.fits.log_lt (k := k) hin.1 (h.tiling.inside _ hbU).2
    unfold logMax
    omega
  have hnew := (h.hand_apart hb (Block.has_start ⟨i, k⟩)).1
  have hh := h.lists.head_lt hin hk
  have hsized : m.Sized i k := ⟨hin, hk, by rw [hmark]; exact mark_logsize hk⟩
  have hmem {b : Block} : b ∈ freeSet (Function.update free k (i :: free k)) ↔ b ∈ freeSet free ∨ b = ⟨i, k⟩ :=
    mem_freeSet_cons
  refine ⟨memsys5Link_ok h.fits hsized hh, ⟨?_, h.lists.push h.fits hin hk hnew hmark, ?_, ?_, ?_, ?_⟩, ?_⟩
  · exact h.fits.of_eq pushed_szAtom pushed_nBlock
  · rw [pushed_nBlock]
    convert h.tiling using 1
    ext b
    simp only [Set.mem_union, Set.mem_sdiff, Set.mem_singleton_iff, hmem]
    by_cases hbi : b = ⟨i, k⟩
    · subst hbi
      simp [hb]
    · simp [hbi]
  · intro b hbl
    rw [pushed_ctrl h.fits hin hh (h.in_of_mem (Or.inl (Or.inr hbl)) b.has_start)]
    exact h.used b hbl
  · intro b hbl hbh
    exact h.live_hand b hbl hbh.1
  · intro b hbl hbf
    rcases hmem.mp hbf with hbf | rfl
    · rcases hbl with hbl | hbl
      · exact h.free_apart b (Or.inl hbl) hbf
      · exact h.free_apart b (Or.inr hbl.1) hbf
    · rcases hbl with hbl | hbl
      · exact h.live_hand _ hbl hb
      · exact hbl.2 rfl
  · rintro x ⟨b, hbl, hx⟩
    refine pushed_zPool h.fits hin hh (h.not_linkByte hbl hx (d := ⟨i, k⟩) (Or.inr hb)) ?_
    intro hpos
    refine h.not_linkByte hbl hx (d := ⟨m.aiFreelist k, k⟩) (Or.inl ?_)
    show m.aiFreelist k ∈ free k
    rw [h.lists.head k hk] at hpos ⊢
    cases hl : free k with
    | nil =>
        rw [hl] at hpos
        exact absurd hpos (by decide)
    | cons s l => exact List.mem_cons_self

theorem Layout.setCtrl (h : m.Layout free live hand) (hb : b ∈ hand) (hi : b.Has i) :
    (m.setCtrl i c).Layout free live hand ∧ m.Spares (m.setCtrl i c) live := by
  obtain ⟨hnew, hlive⟩ := h.hand_apart hb hi
  have hin := h.in_of_mem (Or.inr hb) hi
  refine ⟨⟨h.fits.of_eq rfl rfl, h.lists.setCtrl h.fits hin hnew, h.tiling, ?_, h.live_hand, h.free_apart⟩, ?_⟩
  · intro d hd
    rw [ctrl_setCtrl h.fits hin (h.in_of_mem (Or.inl (Or.inr hd)) d.has_start), if_neg (hlive d hd)]
    exact h.used d hd
  · rintro x ⟨d, hd, hx⟩
    exact zPool_setCtrl h.fits hin (h.not_ctrlByte hd hx hin)

/-! ## 手に持っているブロック -/

/-- 手に持っているブロックと重なるのは、そのブロックだけである。 -/
theorem Layout.hand_only {x : Int} {d : Block} (h : m.Layout free live hand) (hb : b ∈ hand) (hx : b.Has x)
    (hxd : d.Has x) (hne : d ≠ b) : d ∉ live ∧ d ∉ freeSet free := by
  constructor
  · intro hd
    exact hne (h.tiling.disjoint d (Or.inl (Or.inr hd)) b (Or.inr hb) x hxd hx)
  · intro hd
    exact hne (h.tiling.disjoint d (Or.inl (Or.inl hd)) b (Or.inr hb) x hxd hx)

/-- 手に持っているブロックを、同じ所を覆うブロックに取り替える。 -/
theorem Layout.rehand {hand' : Set Block} (h : m.Layout free live hand)
    (ht : Tiling m.nBlock (freeSet free ∪ live ∪ hand')) (hnew : ∀ d ∈ hand', d ∉ live ∧ d ∉ freeSet free) :
    m.Layout free live hand' := by
  refine ⟨h.fits, h.lists, ht, h.used, fun b hb hb' => (hnew b hb').1 hb, ?_⟩
  intro b hb
  rcases hb with hb | hb
  · exact h.free_apart b (Or.inl hb)
  · exact (hnew b hb).2

theorem Layout.halve (h : m.Layout free live {⟨i, n + 1⟩}) : m.Layout free live {⟨i, n⟩, ⟨i + 2 ^ n, n⟩} := by
  have hb : (⟨i, n + 1⟩ : Block) ∈ ({⟨i, n + 1⟩} : Set Block) := rfl
  have hpart {d : Block} (hd : d = ⟨i, n⟩ ∨ d = ⟨i + 2 ^ n, n⟩) : d ∉ live ∧ d ∉ freeSet free := by
    have hx : (⟨i, n + 1⟩ : Block).Has d.start := by
      rw [Tiling.halves_has]
      rcases hd with rfl | rfl
      · exact Or.inl (Block.has_start _)
      · exact Or.inr (Block.has_start _)
    refine h.hand_only hb hx d.has_start ?_
    rintro rfl
    rcases hd with hd | hd
    · exact Nat.succ_ne_self n (congrArg Block.log hd)
    · exact Nat.succ_ne_self n (congrArg Block.log hd)
  refine h.rehand (h.tiling.split (s := i) (k := n) (Or.inr hb) ?_) ?_
  · intro d
    simp only [Set.mem_union, Set.mem_insert_iff, Set.mem_singleton_iff]
    by_cases hd : d = ⟨i, n + 1⟩
    · subst hd
      have h₁ : (⟨i, n + 1⟩ : Block) ∉ live := fun hl => h.live_hand _ hl hb
      have h₂ : (⟨i, n + 1⟩ : Block) ∉ freeSet free := h.free_apart _ (Or.inr hb)
      simp [h₁, h₂]
    · simp [hd]
  · intro d hd
    exact hpart hd

theorem Layout.join (h : m.Layout free live {⟨i, n⟩, ⟨i + 2 ^ n, n⟩}) (hi : (2 : Int) ^ (n + 1) ∣ i) :
    m.Layout free live {⟨i, n + 1⟩} := by
  have hlo : (⟨i, n⟩ : Block) ∈ ({⟨i, n⟩, ⟨i + 2 ^ n, n⟩} : Set Block) := Or.inl rfl
  have hhi : (⟨i + 2 ^ n, n⟩ : Block) ∈ ({⟨i, n⟩, ⟨i + 2 ^ n, n⟩} : Set Block) := Or.inr rfl
  refine h.rehand (h.tiling.merge hi (Or.inr hlo) (Or.inr hhi) ?_) ?_
  · intro d
    have h₁ {e : Block} (he : e ∈ ({⟨i, n⟩, ⟨i + 2 ^ n, n⟩} : Set Block)) : e ∉ live := fun hl => h.live_hand _ hl he
    have h₂ {e : Block} (he : e ∈ ({⟨i, n⟩, ⟨i + 2 ^ n, n⟩} : Set Block)) : e ∉ freeSet free := h.free_apart _ (Or.inr he)
    simp only [Set.mem_union, Set.mem_insert_iff, Set.mem_singleton_iff]
    by_cases hd : d = ⟨i, n⟩
    · subst hd
      simp [h₁ hlo, h₂ hlo]
    · by_cases hd' : d = ⟨i + 2 ^ n, n⟩
      · subst hd'
        simp [h₁ hhi, h₂ hhi]
      · simp [hd, hd']
  · rintro d rfl
    refine h.hand_only hlo (Block.has_start ⟨i, n⟩) (Block.has_start ⟨i, n + 1⟩) ?_
    intro heq
    exact Nat.succ_ne_self n (congrArg Block.log heq)

/-- 手に持っているブロックを渡す。 -/
theorem Layout.adopt (h : m.Layout free live {b}) (hc : m.ctrl b.start = UInt8.ofNat b.log) :
    m.Layout free (insert b live) ∅ := by
  refine ⟨h.fits, h.lists, ?_, ?_, fun _ _ hd => hd, ?_⟩
  · convert h.tiling using 1
    ext d
    simp only [Set.mem_union, Set.mem_insert_iff, Set.mem_empty_iff_false, or_false, Set.mem_singleton_iff]
    tauto
  · rintro d (rfl | hd)
    · exact hc
    · exact h.used d hd
  · rintro d ((rfl | hd) | hd)
    · exact h.free_apart d (Or.inr rfl)
    · exact h.free_apart d (Or.inl hd)
    · exact absurd hd (Set.notMem_empty d)

/-- 渡したブロックを手に戻す。 -/
theorem Layout.release (h : m.Layout free live ∅) (hb : b ∈ live) : m.Layout free (live \ {b}) {b} := by
  refine ⟨h.fits, h.lists, ?_, fun d hd => h.used d hd.1, fun d hd hd' => hd.2 hd', ?_⟩
  · convert h.tiling using 1
    ext d
    simp only [Set.mem_union, Set.mem_sdiff, Set.mem_empty_iff_false, or_false, Set.mem_singleton_iff]
    by_cases hd : d = b
    · subst hd
      simp [hb]
    · simp [hd]
  · rintro d (hd | rfl)
    · exact h.free_apart d (Or.inl hd.1)
    · exact h.free_apart d (Or.inl hb)

end layout

end Mem5Global

end Eleos.Mem5
