import Eleos.Lib.Writeback
import Eleos.Shared.Lemmas.Refine

/-!
# 書き戻し方式のキャッシュとしての枠

ページの管理の状態を `Writeback` と見る。枠の中身と変更の印はそのまま、控えは最後に暗号化した内容である。
`Effect` の各場合は、`Writeback` の操作に対応する。
-/

namespace Eleos.Threads

open Eleos.Pager

variable {n : Nat} {cfg : Config} {s : World n} {t u : Fin n} {p q : Int} {it : Item} {i : Nat}

/-- 手に持つ枠は、どの項目の枠でもない。 -/
theorem Inv.slot_vacant (h : Inv cfg s) (ht : (s.threads t).slot? = some i) (hq : s.cache.get q = some it) :
    it.epc ≠ i := by
  rintro rfl
  have h1 := h.slots it.epc
  have h2 : (s.threads t).hold it.epc ≤ tally (Thread.hold it.epc) s.threads := le_tally t
  have h3 : (s.threads t).hold it.epc = 1 := by simp [Thread.hold, ht]
  have h4 : 0 < (s.cache.table.items.map Item.epc).count it.epc := by
    apply Multiset.count_pos.mpr
    apply Multiset.mem_map_of_mem
    apply (Table.mem_items_iff h.cache.table).mpr
    rwa [PageCache.pageIndex_of_get hq]
  unfold World.places at h1
  split at h1 <;> omega

/-- 二つのスレッドが同じ枠を手に持つことはない。 -/
theorem Inv.slot_apart {j : Nat} (h : Inv cfg s) (hne : t ≠ u) (ht : (s.threads t).slot? = some i)
    (hu : (s.threads u).slot? = some j) : i ≠ j := by
  rintro rfl
  have h1 := h.slots i
  have h2 : (s.threads t).hold i + (s.threads u).hold i ≤ tally (Thread.hold i) s.threads := add_le_tally hne
  have h3 : (s.threads t).hold i = 1 := by simp [Thread.hold, ht]
  have h4 : (s.threads u).hold i = 1 := by simp [Thread.hold, hu]
  unfold World.places at h1
  split at h1 <;> omega

end Eleos.Threads

namespace Eleos.Pager

variable {cfg : Config} {G : Gcm} {s : State} {p q : Int} {it : Item} {i j : Nat} {e : Option Seal} {l : List Event}

/-- 書き戻し方式のキャッシュとして見た状態。 -/
def State.cached (cfg : Config) (s : State) : Writeback Int Nat (Fin pageSize) UInt8 where
  home p := (s.l1.get p).map Item.epc
  slot i := readPage s.epc (cfg.slot i)
  dirty i := tagBit (s.epcArr i)
  vault p := (lastSeal s.trace p).map Seal.plain

/-- 履歴の中の最後の書き込み。 -/
def written (l : List Event) (p : Int) (o : Fin pageSize) : Option UInt8 := lastWrite l (byteAddr p o)

theorem written_write {o : Fin pageSize} {v : UInt8} : written (.write (byteAddr p o) v :: l) =
    Function.update (written l) p (Function.update (written l p) o (some v)) := by
  funext q o'
  rw [written, lastWrite_write]
  by_cases hq : q = p
  · subst hq
    by_cases ho : o' = o
    · subst ho
      simp
    · have hne : byteAddr q o' ≠ byteAddr q o := fun h => ho (byteAddr_inj h).2
      simp [hne, ho, written]
  · have hne : byteAddr q o' ≠ byteAddr p o := fun h => hq (byteAddr_inj h).1
    simp [hne, hq, written]

@[simp] theorem State.cached_home : (s.cached cfg).home p = (s.l1.get p).map Item.epc := rfl

@[simp] theorem State.cached_slot : (s.cached cfg).slot i = readPage s.epc (cfg.slot i) := rfl

@[simp] theorem State.cached_dirty : (s.cached cfg).dirty i = tagBit (s.epcArr i) := rfl

@[simp] theorem State.cached_vault : (s.cached cfg).vault p = (lastSeal s.trace p).map Seal.plain := rfl

theorem State.cached_get (h : s.l1.get p = some it) : (s.cached cfg).home p = some it.epc := by simp [h]

/-! ## 操作との対応 -/

theorem State.cached_remove (h : s.l1.table.Wf Item.pageIndex) :
    (Table.get Item.pageIndex (s.l1.table.remove Item.pageIndex q) p).map Item.epc =
      Function.update (fun p => (s.l1.get p).map Item.epc) q none p := by
  by_cases hp : p = q
  · subst hp
    simp [Table.get_remove_self h]
  · simp [Table.get_remove_ne hp, hp, PageCache.get]

/-- 変更のない項目の追い出し。 -/
theorem State.cached_drop (h : s.l1.table.Wf Item.pageIndex) (hit : s.l1.get q = some it) :
    (s.drop it none).cached cfg = (s.cached cfg).drop q := by
  have hk := PageCache.pageIndex_of_get hit
  subst hk
  exact Writeback.ext (funext fun p => State.cached_remove h) rfl rfl rfl

/-- 変更のある項目の追い出し。 -/
theorem State.cached_flush {e : Seal} (h : s.l1.table.Wf Item.pageIndex) (hs : s.Slots cfg)
    (hit : s.l1.get q = some it) (he : s.Seals G it e) :
    ((s.writeBack it e).drop it (some e)).cached cfg = ((s.cached cfg).flush q it.epc).drop q := by
  have hk := PageCache.pageIndex_of_get hit
  subst hk
  refine Writeback.ext (funext fun p => State.cached_remove h) rfl (funext fun j => ?_) (funext fun p => ?_)
  · by_cases hj : j = it.epc
    · subst hj
      simp [State.writeBack, State.drop, Writeback.flush, Writeback.drop]
    · simp [State.writeBack, State.drop, Writeback.flush, Writeback.drop, hj]
  · have hplain : e.plain = readPage s.epc (cfg.slot it.epc) := by rw [he.2.1, hs]
    by_cases hp : p = it.pageIndex
    · simp [State.writeBack, State.drop, Writeback.flush, Writeback.drop, lastSeal, hp, hplain]
    · simp [State.writeBack, State.drop, Writeback.flush, Writeback.drop, lastSeal, hp]

/-- 読み込む内容。復号しなければ枠の中身のままである。 -/
def State.content (cfg : Config) (s : State) (i : Nat) : Option Seal → Page
  | none => readPage s.epc (cfg.slot i)
  | some e => e.plain

theorem State.cached_load (hi : s.epcArr i = cfg.slot i) :
    (s.load p i e).cached cfg = (s.cached cfg).fill i (s.content cfg i e) := by
  refine Writeback.ext rfl (funext fun j => ?_) rfl rfl
  cases e with
  | none =>
      by_cases hj : j = i
      · subst hj
        simp [State.load, State.slotAfter, State.content, Writeback.fill]
      · simp [State.load, State.slotAfter, Writeback.fill, hj]
  | some e =>
      by_cases hj : j = i
      · subst hj
        simp [State.load, State.slotAfter, State.content, Writeback.fill, hi]
      · have hapart := readPage_writePage_of_apart (m := s.epc) (c := e.plain) (cfg.slot_apart hj)
        simp [State.load, State.slotAfter, Writeback.fill, hj, hi, hapart]

theorem State.cached_enter (hp : s.l1.get p = none) : (s.enter p i).cached cfg = (s.cached cfg).place p i := by
  refine Writeback.ext (funext fun q => ?_) rfl rfl rfl
  by_cases hq : q = p
  · subst hq
    have hget := Table.get_append_self (x := (⟨q, i⟩ : Item)) hp
    simp [State.enter, Writeback.place, PageCache.get, hget]
  · have hget : Table.get Item.pageIndex (s.l1.table.append Item.pageIndex ⟨p, i⟩) q = s.l1.get q :=
      Table.get_append_ne hq
    simp [State.enter, Writeback.place, PageCache.get, hget, hq]

theorem State.cached_mark : (s.mark i true).cached cfg = (s.cached cfg).mark i := by
  refine Writeback.ext rfl rfl (funext fun j => ?_) rfl
  by_cases hj : j = i
  · subst hj
    simp [State.mark, Writeback.mark]
  · simp [State.mark, Writeback.mark, hj]

theorem State.cached_write {a : Int} {o : Fin pageSize} {v : UInt8} :
    State.cached cfg { s with epc := Function.update s.epc (cfg.slot i + o) v, trace := .write a v :: s.trace } =
      (s.cached cfg).store i o v := by
  refine Writeback.ext rfl (funext fun j => ?_) rfl rfl
  funext o'
  by_cases hj : j = i
  · subst hj
    by_cases ho : o' = o
    · subst ho
      simp [Writeback.store, Writeback.fill, readPage]
    · have hne : (o' : Nat) ≠ o := fun h => ho (Fin.ext h)
      simp [Writeback.store, Writeback.fill, readPage, ho, hne]
  · have hapart := cfg.slot_apart hj
    have h₁ := o.isLt
    have h₂ := o'.isLt
    have hne : cfg.slot j + o' ≠ cfg.slot i + o := by omega
    simp [Writeback.store, Writeback.fill, readPage, hj, hne]

end Eleos.Pager
