import Eleos.Mem5.Lemmas.Arena

/-!
# 割り当てたブロックへの書き込み

割り当てたブロックの中だけを書き換えても、空きの並びと `aCtrl` は変わらない。
-/

namespace Eleos.Mem5

open Mem5Global

variable {m : Mem5Global} {free : Nat → List Int} {live : Set Block} {z : Memory} {i : Int} {k : Nat}

/-- プールの中身を `z` にした状態。 -/
def Mem5Global.filled (m : Mem5Global) (z : Memory) : Mem5Global := { m with zPool := z }

/-- `z` は `live` のブロックの中だけで異なる。 -/
def Mem5Global.Confined (m : Mem5Global) (live : Set Block) (z : Memory) : Prop :=
  ∀ x : Nat, z x ≠ m.zPool x → ∃ b ∈ live, b.start * m.szAtom ≤ x ∧ (x : Int) < b.stop * m.szAtom

namespace Mem5Global

theorem Confined.link_eq {x : Nat} (h : m.Layout free live ∅) (hz : m.Confined live z) (hi : i ∈ free k)
    (hx : m.LinkByte i x) : z x = m.zPool x := by
  by_contra hne
  obtain ⟨b, hb, hbx⟩ := hz x hne
  have hd : (⟨i, k⟩ : Block) ∈ freeSet free ∪ ∅ := Or.inl hi
  exact h.not_linkByte hb hbx hd hx

theorem Confined.ctrl_eq (h : m.Layout free live ∅) (hz : m.Confined live z) (hi : m.In i) :
    (m.filled z).ctrl i = m.ctrl i := by
  by_contra hne
  obtain ⟨b, hb, hbx⟩ := hz _ hne
  refine h.not_ctrlByte hb hbx hi ?_
  have h₀ := h.fits.mul_nonneg (hi.1.trans hi.2.le)
  have h₁ := hi.1
  have haddr : (m.filled z).ctrlAddr i = m.ctrlAddr i := rfl
  unfold CtrlByte
  rw [haddr, h.fits.ctrlAddr hi]
  omega

/-- `Mem5Link` の二つの欄。 -/
theorem Confined.load_eq {c : Nat} (h : m.Layout free live ∅) (hz : m.Confined live z) (hi : i ∈ free k)
    (hc : c ≤ 4) : load32 z ((m.linkAddr i).toNat + c) = load32 m.zPool ((m.linkAddr i).toNat + c) := by
  have hin := (h.lists.bound k i hi).2
  have h₀ := h.fits.mul_nonneg hin.1
  apply load32_congr
  intro x hlo hhi
  rw [h.fits.linkAddr hin] at hlo hhi
  exact hz.link_eq h hi ⟨by omega, by omega⟩

theorem Lists.filled (h : m.Layout free live ∅) (hz : m.Confined live z) : (m.filled z).Lists free := by
  have hl := h.lists
  refine ⟨hl.head, ?_, hl.nodup, ?_, hl.bound⟩
  · intro k
    exact (hl.linked k).congr (fun j hj => hz.load_eq h hj (Nat.zero_le 4)) fun j hj => hz.load_eq h hj le_rfl
  · intro k s hs
    rw [hz.ctrl_eq h (hl.bound k s hs).2]
    exact hl.mark k s hs

theorem Heap.filled (h : m.Heap free live) (hz : m.Confined live z) : (m.filled z).Heap free live := by
  have hl := h.layout
  refine ⟨⟨hl.fits.of_eq rfl rfl, Lists.filled hl hz, hl.tiling, ?_, hl.live_hand, hl.free_apart⟩, h.lone⟩
  intro b hb
  rw [hz.ctrl_eq hl (hl.in_of_mem (Or.inl (Or.inr hb)) b.has_start)]
  exact hl.used b hb

theorem Heap.filled_freeBlocks (h : m.Heap free live) (hz : m.Confined live z) :
    (m.filled z).freeBlocks = m.freeBlocks := by
  rw [h.layout.lists.freeBlocks_eq, (h.filled hz).layout.lists.freeBlocks_eq]

end Mem5Global

theorem Arena.Sound.filled {s : Arena} (h : s.Sound m) (hz : s.mem.Confined s.liveBlocks z) :
    Arena.Sound m ⟨s.mem.filled z, s.live⟩ := by
  obtain ⟨free, hh⟩ := h.heap
  exact ⟨h.szAtom, h.nBlock, ⟨free, hh.filled hz⟩, h.nodup, h.ptr, h.bytes⟩

end Eleos.Mem5
