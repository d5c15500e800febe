import Eleos.Mem5.Lemmas.Objects
import Eleos.Mem5.Theorems

/-!
# 割り当てた領域に置くデータ

どの呼び出しの列でも、領域に書いた値は、その領域を解放するまで残る。割り当ては、空きのある限り成功する。
-/

namespace Eleos.Mem5

open Mem5Global

variable {m : Mem5Global} {t : Objects} {z : Memory} {p : Nat} {r n : Int}

/-- 到達できるどの状態でも、割り当ての約束が成り立ち、領域に最後に書いた値が残り、`memsys5Size` と `memsys5Roundup` は領域の
大きさを返し、前提を満たす呼び出しは検査で止まらない。 -/
theorem objects_kept (hinit : memsys5Init z p r = .ok m) (hsize : m.nBlock * m.szAtom < 2147483648)
    (h : Objects.Reach m t) : t.arena.Contract m ∧ t.Kept ∧
      (∀ a ∈ t.arena.live, memsys5Size t.arena.mem (some a.ptr) = .ok (a.size m.szAtom) ∧
        memsys5Roundup t.arena.mem a.nByte = .ok (a.size m.szAtom)) ∧
      ∀ op, t.Guard op → ∃ t', t.step op = .ok t' := by
  obtain ⟨free, hh⟩ := memsys5Init_heap hinit hsize
  obtain ⟨_, ⟨c, hc⟩, _⟩ := memsys5Init_shape hinit
  have hs := h.sound hh hc
  refine ⟨hs.arena.contract hh hc, hs.kept, ?_, ?_⟩
  · intro a ha
    rw [← hs.arena.szAtom]
    exact ⟨hs.arena.memsys5Size ha, memsys5Roundup_ok hs.arena.atom_pos (hs.arena.bytes a ha).2⟩
  · intro op hg
    obtain ⟨t', he, _⟩ := hs.step hc hg
    exact ⟨t', he⟩

/-- 割り当ては、割り当てた領域と重ならない、揃った `2 ^ k` 個の単位の並びがあるとき、かつそのときに限り成功する。 -/
theorem malloc_succeeds_iff (hinit : memsys5Init z p r = .ok m) (hsize : m.nBlock * m.szAtom < 2147483648)
    (h : Objects.Reach m t) (hpos : 0 < n) (hn : n ≤ 0x40000000) :
    (∃ m' q, memsys5Malloc t.arena.mem n = .ok (m', some q)) ↔ t.Room (logOf m.szAtom n) := by
  obtain ⟨free, hh⟩ := memsys5Init_heap hinit hsize
  obtain ⟨_, ⟨c, hc⟩, _⟩ := memsys5Init_shape hinit
  have hs := h.sound hh hc
  rw [← hs.arena.szAtom]
  exact hs.malloc_iff hpos hn

/-- 16 バイトの領域に 7 を書き、20 バイトに広げる。領域は移り、もとの領域は空く。 -/
def growOps : List Objects.Op := [.malloc 16, .write ⟨0, 16⟩ 3 7, .realloc ⟨0, 16⟩ 20]

theorem exists_grown : ∃ t, Objects.Reach smallPool t ∧ emptyPool.run growOps = .ok t ∧
    t.arena.live = [⟨32, 32⟩] ∧ t.written 32 3 = some 7 := by
  have hrun : ∃ t, emptyPool.run growOps = .ok t ∧ t.arena.live = [⟨32, 32⟩] ∧ t.written 32 3 = some 7 := by
    decide +kernel
  obtain ⟨t, ht, hlive, hw⟩ := hrun
  have hguard : emptyPool.Guarded growOps := by decide +kernel
  exact ⟨t, Objects.Reach.init.run hguard ht, ht, hlive, hw⟩

theorem objects_kept_grown : ∃ t, Objects.Reach smallPool t ∧ emptyPool.run growOps = .ok t ∧
    t.arena.live = [⟨32, 32⟩] ∧ t.written 32 3 = some 7 ∧ t.Kept := by
  obtain ⟨t, hr, ht, hlive, hw⟩ := exists_grown
  exact ⟨t, hr, ht, hlive, hw, (objects_kept smallPool_eq (by decide +kernel) hr).2.1⟩

theorem malloc_succeeds_iff_grown : ∃ t, Objects.Reach smallPool t ∧ emptyPool.run growOps = .ok t ∧
    t.arena.live = [⟨32, 32⟩] ∧
    ((∃ m' q, memsys5Malloc t.arena.mem 32 = .ok (m', some q)) ↔ t.Room (logOf smallPool.szAtom 32)) := by
  obtain ⟨t, hr, ht, hlive, _⟩ := exists_grown
  exact ⟨t, hr, ht, hlive, malloc_succeeds_iff smallPool_eq (by decide +kernel) hr (by decide) (by decide)⟩

end Eleos.Mem5
