import Eleos.Mem5.Lemmas.Init
import Mathlib.Data.List.Nodup

/-!
# 割り当てと解放のもとでの不変条件
-/

namespace Eleos.Mem5

open Mem5Global

variable {m m' : Mem5Global} {s : Arena} {f : Nat → List Int} {a : Alloc}

/-- 到達できる状態の不変条件。 -/
structure Arena.Sound (m : Mem5Global) (s : Arena) : Prop where
  szAtom : s.mem.szAtom = m.szAtom
  nBlock : s.mem.nBlock = m.nBlock
  heap : ∃ free, s.mem.Heap free s.liveBlocks
  nodup : (s.live.map (Alloc.block s.mem.szAtom)).Nodup
  ptr : ∀ a ∈ s.live, a.ptr = (a.block s.mem.szAtom).start * s.mem.szAtom
  bytes : ∀ a ∈ s.live, 0 < a.nByte ∧ a.nByte ≤ 1073741824

namespace Arena

theorem init_sound (h : m.Heap f ∅) : Sound m ⟨m, []⟩ := by
  refine ⟨rfl, rfl, ⟨f, ?_⟩, List.nodup_nil, fun _ h => (nomatch h), fun _ h => (nomatch h)⟩
  have hnil : (⟨m, []⟩ : Arena).liveBlocks = ∅ := by
    ext b
    refine iff_of_false ?_ (Set.notMem_empty b)
    rintro ⟨a, ha, _⟩
    cases ha
  rw [hnil]
  exact h

theorem Sound.malloc {n : Int} (h : Sound m s) (hpos : 0 < n) (hn : n ≤ 1073741824) :
    ∃ m' r, memsys5Malloc s.mem n = .ok (m', r) ∧
      (r = none → m' = s.mem ∧ ∀ b ∈ s.mem.freeBlocks, b.log < logOf s.mem.szAtom n) ∧
      (∀ p, r = some p → Sound m ⟨m', ⟨p, n⟩ :: s.live⟩ ∧ s.mem.Steady m' s.liveBlocks) := by
  obtain ⟨free, hh⟩ := h.heap
  have hA := hh.layout.fits.atom
  rcases memsys5Malloc_heap hh hpos hn with ⟨he, hlt⟩ | ⟨m', free', i, he, hh', hst, hnew⟩
  · refine ⟨s.mem, none, he, fun _ => ⟨rfl, ?_⟩, fun _ hp => (nomatch hp)⟩
    rw [hh.layout.lists.freeBlocks_eq]
    exact hlt
  · refine ⟨m', _, he, fun hr => (nomatch hr), ?_⟩
    rintro p ⟨⟩
    refine ⟨?_, hst⟩
    have hblock : (⟨i * s.mem.szAtom, n⟩ : Alloc).block s.mem.szAtom = ⟨i, logOf s.mem.szAtom n⟩ := by
      unfold Alloc.block
      dsimp only
      rw [Int.mul_ediv_cancel _ (by omega)]
    have hlive : (⟨m', ⟨i * s.mem.szAtom, n⟩ :: s.live⟩ : Arena).liveBlocks =
        insert ⟨i, logOf s.mem.szAtom n⟩ s.liveBlocks := by
      unfold liveBlocks
      dsimp only
      rw [hst.szAtom]
      ext b
      simp only [Set.mem_ofPred_eq, List.mem_cons, Set.mem_insert_iff]
      constructor
      · rintro ⟨a, rfl | ha, rfl⟩
        · exact Or.inl hblock
        · exact Or.inr ⟨a, ha, rfl⟩
      · rintro (rfl | ⟨a, ha, rfl⟩)
        · exact ⟨_, Or.inl rfl, hblock⟩
        · exact ⟨a, Or.inr ha, rfl⟩
    refine ⟨hst.szAtom.trans h.szAtom, hst.nBlock.trans h.nBlock, ⟨free', ?_⟩, ?_, ?_, ?_⟩
    · rw [hlive]
      exact hh'
    · dsimp only
      rw [hst.szAtom, List.map_cons, hblock]
      refine List.nodup_cons.mpr ⟨?_, h.nodup⟩
      intro hm
      obtain ⟨a, ha, hab⟩ := List.mem_map.mp hm
      exact hnew ⟨a, ha, hab⟩
    · dsimp only
      rw [hst.szAtom]
      intro a ha
      rcases List.mem_cons.mp ha with rfl | ha
      · rw [hblock]
      · exact h.ptr a ha
    · intro a ha
      rcases List.mem_cons.mp ha with rfl | ha
      · exact ⟨hpos, hn⟩
      · exact h.bytes a ha

theorem Sound.free (h : Sound m s) (ha : a ∈ s.live) : ∃ m', memsys5Free s.mem (some a.ptr) = .ok m' ∧
    Sound m ⟨m', s.live.erase a⟩ ∧ s.mem.Steady m' (s.liveBlocks \ {a.block s.mem.szAtom}) := by
  obtain ⟨free, hh⟩ := h.heap
  have hb : (⟨(a.block s.mem.szAtom).start, (a.block s.mem.szAtom).log⟩ : Block) ∈ s.liveBlocks := ⟨a, ha, rfl⟩
  obtain ⟨m', free', he, hh', hst⟩ := memsys5Free_heap hh hb
  rw [← h.ptr a ha] at he
  have hnd : s.live.Nodup := List.Nodup.of_map _ h.nodup
  have hinj {c : Alloc} (hc : c ∈ s.live) (heq : c.block s.mem.szAtom = a.block s.mem.szAtom) : c = a :=
    List.inj_on_of_nodup_map h.nodup hc ha heq
  have hmem {c : Alloc} : c ∈ s.live.erase a ↔ c ∈ s.live ∧ c ≠ a := by
    rw [hnd.mem_erase_iff, and_comm]
  have hlive : (⟨m', s.live.erase a⟩ : Arena).liveBlocks = s.liveBlocks \ {a.block s.mem.szAtom} := by
    unfold liveBlocks
    dsimp only
    rw [hst.szAtom]
    ext b
    simp only [Set.mem_ofPred_eq, Set.mem_sdiff, Set.mem_singleton_iff]
    constructor
    · rintro ⟨c, hc, rfl⟩
      obtain ⟨hc, hne⟩ := hmem.mp hc
      exact ⟨⟨c, hc, rfl⟩, fun heq => hne (hinj hc heq)⟩
    · rintro ⟨⟨c, hc, rfl⟩, hne⟩
      refine ⟨c, hmem.mpr ⟨hc, ?_⟩, rfl⟩
      rintro rfl
      exact hne rfl
  refine ⟨m', he, ⟨hst.szAtom.trans h.szAtom, hst.nBlock.trans h.nBlock, ⟨free', ?_⟩, ?_, ?_, ?_⟩, hst⟩
  · rw [hlive]
    exact hh'
  · dsimp only
    rw [hst.szAtom]
    exact h.nodup.sublist (List.erase_sublist.map _)
  · dsimp only
    rw [hst.szAtom]
    intro c hc
    exact h.ptr c (hmem.mp hc).1
  · intro c hc
    exact h.bytes c (hmem.mp hc).1

/-! ## 約束 -/

theorem Sound.aligned (h : Sound m s) (ha : a ∈ s.live) : a.size s.mem.szAtom ∣ a.ptr := by
  obtain ⟨free, hh⟩ := h.heap
  have hdvd : (2 : Int) ^ (a.block s.mem.szAtom).log ∣ (a.block s.mem.szAtom).start :=
    hh.layout.tiling.aligned _ (Or.inl (Or.inr ⟨a, ha, rfl⟩))
  rw [h.ptr a ha, mul_comm]
  exact mul_dvd_mul_left s.mem.szAtom hdvd

theorem page_of_dvd {p : Int} {c : Nat} (h : (2 : Int) ^ c ∣ p) (hle : (2 : Int) ^ c ≤ 4096) :
    p / 4096 = (p + 2 ^ c - 1) / 4096 := by
  have hc : c ≤ 12 := by
    by_contra hlt
    have : (2 : Int) ^ 13 ≤ 2 ^ c := two_pow_le (Nat.lt_of_not_le hlt)
    omega
  obtain ⟨u, rfl⟩ := h
  interval_cases c <;> omega

theorem Sound.contract {c : Nat} (hm : m.Heap f ∅) (hc : m.szAtom = 2 ^ c) (h : Sound m s) : s.Contract m := by
  obtain ⟨free', hh⟩ := h.heap
  have hA := hh.layout.fits.atom
  have hfree := hh.layout.lists.freeBlocks_eq
  have hpow (a : Alloc) : a.size m.szAtom = 2 ^ (c + logOf m.szAtom a.nByte) := by
    unfold Alloc.size
    rw [hc, pow_add]
  have halign {a : Alloc} (ha : a ∈ s.live) : a.size m.szAtom ∣ a.ptr := h.szAtom ▸ h.aligned ha
  have htile : Tiling m.nBlock (s.mem.freeBlocks ∪ s.liveBlocks) := by
    rw [hfree, ← h.nBlock]
    have ht := hh.layout.tiling
    rwa [Set.union_empty] at ht
  refine ⟨htile, ?_, h.szAtom ▸ h.nodup, ?_, ?_, ?_, ?_, ?_, ?_, ?_, ?_⟩
  · intro b hb
    rw [hfree]
    exact hh.layout.free_apart b (Or.inl hb)
  · intro a ha
    obtain ⟨h₁, h₂⟩ := h.bytes a ha
    obtain ⟨_, h₃, h₄⟩ := logOf_spec h₂ (s := s.mem.szAtom) (by omega)
    rw [h.szAtom] at h₃ h₄
    refine ⟨h₃, ?_⟩
    unfold Alloc.size
    cases hk : logOf m.szAtom a.nByte with
    | zero =>
        left
        rw [pow_zero, mul_one]
    | succ k =>
        right
        have h₅ := h₄ (by omega)
        rw [hk, Nat.add_sub_cancel] at h₅
        rw [pow_succ, ← mul_assoc]
        omega
  · intro a ha
    exact ⟨h.szAtom ▸ h.ptr a ha, halign ha⟩
  · intro a ha hle
    have h₁ := halign ha
    rw [hpow a] at h₁ hle ⊢
    exact page_of_dvd h₁ hle
  · intro a ha hlt
    have h₁ := halign ha
    rw [hpow a] at h₁ hlt
    have h₂ : 12 ≤ c + logOf m.szAtom a.nByte := by
      by_contra hle
      have : (2 : Int) ^ (c + logOf m.szAtom a.nByte) ≤ 2 ^ 12 := two_pow_le (by omega)
      omega
    exact (two_pow_dvd h₂).trans h₁
  · intro n hpos hn
    obtain ⟨m', r, he, hnone, _⟩ := h.malloc hpos hn
    exact ⟨m', r, he, fun hr => h.szAtom ▸ (hnone hr).2⟩
  · intro a ha
    obtain ⟨m', he, _⟩ := h.free ha
    exact ⟨m', he⟩
  · rw [hfree]
    exact hh.lone
  · intro hnil
    have hlive : s.liveBlocks = ∅ := by
      ext b
      refine iff_of_false ?_ (Set.notMem_empty b)
      rintro ⟨a, ha, _⟩
      rw [hnil] at ha
      cases ha
    have ht := hm.layout.tiling
    rw [Set.union_empty, Set.union_empty] at ht
    rw [hlive, Set.union_empty, hfree] at htile
    rw [hfree, hm.layout.lists.freeBlocks_eq]
    exact htile.unique hh.lone ht hm.lone

end Arena

end Eleos.Mem5
