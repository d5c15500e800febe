import Eleos.Direct.Run

/-!
# 部分ページの構成の表

`PageCache` と `CryptoCache` の操作のあとの探索の結果を述べる。
-/

namespace Eleos.Direct

open Eleos.Pager (Nonce Tag)

variable {c c' : PageCache} {m : CryptoCache} {p q : Int} {i j k : Nat} {it : Item}

/-! ## `PageCache` -/

/-- 部分ページ `k` を有効にした項目。 -/
def Item.mark (it : Item) (k : Nat) : Item :=
  { it with isValid := Function.update it.isValid k true }

namespace PageCache

theorem pageIndex_of_get (h : c.get p = some it) : it.pageIndex = p := Table.key_of_get h

theorem setRefCount_eq {f : UInt8 → UInt8} (hp : 0 ≤ p ∧ p < c.backingStoreSize) :
    c.setRefCount p f = .ok { c with refCount := Function.update c.refCount p (f (c.refCount p)) } :=
  if_pos hp

theorem getRefCount_eq (hp : 0 ≤ p ∧ p < c.backingStoreSize) : c.getRefCount p = .ok (c.refCount p) :=
  if_pos hp

/-- 参照の数が 1 でなければ、何も変わらない。 -/
theorem tryRemove_skip (hp : 0 ≤ p ∧ p < c.backingStoreSize) (h : c.refCount p ≠ 1) :
    c.tryRemove p = .ok (false, c) := by
  simp [tryRemove, getRefCount_eq hp, Bind.bind, Except.bind, h]

theorem tryRemove_take (hp : 0 ≤ p ∧ p < c.backingStoreSize) (h : c.refCount p = 1) (hg : c.get p = some it) :
    c.tryRemove p = .ok (true, { c with
      table := c.table.remove Item.pageIndex p, pageCacheSize := c.pageCacheSize - 1 }) := by
  simp [tryRemove, getRefCount_eq hp, Bind.bind, Except.bind, h, remove, hg]

/-- 項目 `it` を加えた表。 -/
def put (c : PageCache) (it : Item) : PageCache :=
  { c with table := c.table.append Item.pageIndex it, pageCacheSize := c.pageCacheSize + 1 }

/-- ページ `p` の項目を外した表。 -/
def drop (c : PageCache) (p : Int) : PageCache :=
  { c with table := c.table.remove Item.pageIndex p, pageCacheSize := c.pageCacheSize - 1 }

theorem get_put (h : c.get it.pageIndex = none) (q : Int) :
    (c.put it).get q = if q = it.pageIndex then some it else c.get q := by
  by_cases hq : q = it.pageIndex
  · subst hq
    rw [if_pos rfl]
    exact Table.get_append_self h
  · rw [if_neg hq]
    exact Table.get_append_ne hq

theorem get_drop (h : c.table.Wf Item.pageIndex) (q : Int) :
    (c.drop p).get q = if q = p then none else c.get q := by
  by_cases hq : q = p
  · subst hq
    rw [if_pos rfl]
    exact Table.get_remove_self h
  · rw [if_neg hq]
    exact Table.get_remove_ne hq

theorem get_setValid (h : c.get p = some it) (q : Int) :
    (c.setValid p k).get q = if q = p then some (it.mark k) else c.get q := by
  by_cases hq : q = p
  · subst hq
    rw [if_pos rfl]
    have hself : (c.setValid q k).get q = (c.get q).map fun it => it.mark k :=
      @Table.get_modify_self _ _ _ Item.pageIndex _ _ _ fun _ => rfl
    rw [hself, h]
    rfl
  · rw [if_neg hq]
    exact Table.get_modify_ne (fun _ => rfl) hq

end PageCache

/-! ## `CryptoCache` -/

namespace CryptoCache

/-- 部分ページ `k` の、初期化されたノンスとタグ。 -/
def entry (m : CryptoCache) (p : Int) (k : Nat) : Option (Nonce × Tag) :=
  (m.get p).bind fun y => if y.isInitialized k then some (y.nonce k, y.mac k) else none

theorem entry_add (q : Int) (j : Nat) : (m.add p).entry q j = m.entry q j := by
  unfold add
  cases h : m.get p with
  | some y => rfl
  | none =>
      unfold entry
      by_cases hq : q = p
      · subst hq
        have hself : get (Table.append CryptoItem.pageIndex m
            ⟨q, fun _ => Vector.replicate 12 0, fun _ => Vector.replicate 16 0, fun _ => false⟩) q = some _ :=
          @Table.get_append_self _ _ _ CryptoItem.pageIndex _ _ h
        rw [h, hself]
        rfl
      · have hne : get (Table.append CryptoItem.pageIndex m
            ⟨p, fun _ => Vector.replicate 12 0, fun _ => Vector.replicate 16 0, fun _ => false⟩) q = m.get q :=
          Table.get_append_ne hq
        rw [hne]

theorem exists_get_add : ∃ y, (m.add p).get p = some y := by
  unfold add
  cases h : m.get p with
  | some y => exact ⟨y, h⟩
  | none => exact ⟨_, @Table.get_append_self _ _ _ CryptoItem.pageIndex _ _ h⟩

/-- 書き込みは、部分ページ `k` のノンスとタグだけを変える。 -/
theorem entry_write {n : Nonce} {t : Tag} (q : Int) (j : Nat) :
    ((m.add p).write p k n t).entry q j = if q = p ∧ j = k then some (n, t) else m.entry q j := by
  rw [← entry_add (m := m) (p := p)]
  unfold entry
  by_cases hq : q = p
  · subst hq
    obtain ⟨y, hy⟩ := exists_get_add (m := m) (p := q)
    have hself : ((m.add q).write q k n t).get q = ((m.add q).get q).map _ :=
      @Table.get_modify_self _ _ _ CryptoItem.pageIndex _ _ _ fun _ => rfl
    rw [hself, hy]
    by_cases hj : j = k
    · subst hj
      simp
    · simp [hj]
  · have hne : ((m.add p).write p k n t).get q = (m.add p).get q := Table.get_modify_ne (fun _ => rfl) hq
    rw [hne, if_neg fun h => hq h.1]

end CryptoCache

end Eleos.Direct
