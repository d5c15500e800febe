import Mathlib.Algebra.BigOperators.Group.Finset.Piecewise
import Mathlib.Algebra.Order.Group.Multiset
import Mathlib.Data.Multiset.Basic

/-!
# 連鎖法のハッシュ表

番号で選んだ連鎖（並び）の中を、鍵で先頭から探す表。要素は連鎖の末尾に加える。
表全体の要素の多重集合 `items` で、操作の前後の関係を述べる。
-/

namespace Eleos

/-- `size` 本の連鎖からなる表。鍵 `k` の要素は連鎖 `hash k` に置く。 -/
structure Table (κ ι : Type) where
  size : Nat
  hash : κ → Nat
  buckets : Nat → List ι

namespace Table

variable {κ ι : Type} [DecidableEq κ] (key : ι → κ) {t : Table κ ι} {k k' : κ} {x y : ι}

/-- 鍵 `k` の要素を連鎖の先頭から探す。 -/
def get (t : Table κ ι) (k : κ) : Option ι := (t.buckets (t.hash k)).find? fun x => key x = k

def append (t : Table κ ι) (x : ι) : Table κ ι :=
  { t with buckets := Function.update t.buckets (t.hash (key x)) (t.buckets (t.hash (key x)) ++ [x]) }

/-- 鍵 `k` の最初の要素を連鎖から外す。 -/
def remove (t : Table κ ι) (k : κ) : Table κ ι :=
  { t with buckets := Function.update t.buckets (t.hash k) ((t.buckets (t.hash k)).eraseP fun x => key x = k) }

/-- 鍵 `k` の要素を `f` で書き換える。 -/
def modify (t : Table κ ι) (k : κ) (f : ι → ι) : Table κ ι :=
  { t with
    buckets := Function.update t.buckets (t.hash k)
      ((t.buckets (t.hash k)).map fun x => if key x = k then f x else x) }

/-- 要素は自分の連鎖にあり、一つの連鎖に同じ鍵の要素は二つない。 -/
structure Wf (t : Table κ ι) : Prop where
  small : ∀ k, t.hash k < t.size
  home : ∀ b, ∀ x ∈ t.buckets b, t.hash (key x) = b
  nodup : ∀ b, ((t.buckets b).map key).Nodup

/-- 表のすべての要素。 -/
def items (t : Table κ ι) : Multiset ι := ∑ b ∈ Finset.range t.size, (t.buckets b : Multiset ι)

variable {key}

/-! ## 探索 -/

theorem key_of_get (h : t.get key k = some x) : key x = k := by
  simpa using List.find?_some h

theorem get_eq_none_iff : t.get key k = none ↔ ∀ x ∈ t.buckets (t.hash k), key x ≠ k := by
  simp [get]

theorem get_append_self (h : t.get key (key x) = none) : (t.append key x).get key (key x) = some x := by
  simp only [get] at h
  simp [get, append, h]

theorem get_append_ne (hk : k ≠ key x) : (t.append key x).get key k = t.get key k := by
  by_cases hb : t.hash k = t.hash (key x)
  · simp [get, append, hb, Ne.symm hk]
  · simp [get, append, hb]

theorem find?_eraseP_ne {l : List ι} (hk : k ≠ k') :
    (l.eraseP fun x => key x = k').find? (fun x => key x = k) = l.find? fun x => key x = k := by
  induction l with
  | nil => rfl
  | cons y l ih =>
      by_cases hy : key y = k'
      · have hne : key y ≠ k := by rintro rfl; exact hk hy
        simp [hy, hk.symm]
      · by_cases hy' : key y = k
        · simp [hy', hk]
        · simp [hy, hy', ih]

theorem get_remove_ne (hk : k ≠ k') : (t.remove key k').get key k = t.get key k := by
  by_cases hb : t.hash k = t.hash k'
  · simp only [get, remove, hb, Function.update_self]
    exact find?_eraseP_ne hk
  · simp [get, remove, hb]

theorem find?_eraseP_self {l : List ι} (h : (l.map key).Nodup) :
    (l.eraseP fun x => key x = k).find? (fun x => key x = k) = none := by
  induction l with
  | nil => rfl
  | cons y l ih =>
      rw [List.map_cons, List.nodup_cons] at h
      by_cases hy : key y = k
      · subst hy
        simp only [decide_true, List.eraseP_cons_of_pos, List.find?_eq_none, decide_eq_true_eq]
        intro z hz hzk
        exact h.1 (List.mem_map.mpr ⟨z, hz, hzk⟩)
      · simpa [hy] using ih h.2

theorem get_remove_self (h : t.Wf key) : (t.remove key k).get key k = none := by
  simp only [get, remove, Function.update_self]
  exact find?_eraseP_self (h.nodup _)

theorem get_modify_ne {f : ι → ι} (hf : ∀ x, key (f x) = key x) (hk : k ≠ k') :
    (t.modify key k' f).get key k = t.get key k := by
  by_cases hb : t.hash k = t.hash k'
  · simp only [get, modify, hb, Function.update_self]
    induction t.buckets (t.hash k') with
    | nil => rfl
    | cons y l ih =>
        by_cases hy : key y = k'
        · simp [hy, hf, hk.symm, ih]
        · by_cases hy' : key y = k
          · simp [hy', hk]
          · simp [hy, hy', ih]
  · simp [get, modify, hb]

theorem get_modify_self {f : ι → ι} (hf : ∀ x, key (f x) = key x) :
    (t.modify key k f).get key k = (t.get key k).map f := by
  simp only [get, modify, Function.update_self]
  induction t.buckets (t.hash k) with
  | nil => rfl
  | cons y l ih =>
      by_cases hy : key y = k
      · simp [hy, hf]
      · simp [hy, ih]

/-! ## 整合性の保存 -/

theorem Wf.append (h : t.Wf key) (hx : t.get key (key x) = none) : (t.append key x).Wf key where
  small := h.small
  home := by
    intro b y hy
    by_cases hb : b = t.hash (key x)
    · subst hb
      simp only [Table.append, Function.update_self, List.mem_append, List.mem_singleton] at hy
      rcases hy with hy | rfl
      · exact h.home _ y hy
      · rfl
    · simp only [Table.append, Function.update_of_ne hb] at hy
      exact h.home b y hy
  nodup := by
    intro b
    by_cases hb : b = t.hash (key x)
    · subst hb
      simp only [Table.append, Function.update_self, List.map_append, List.map_cons, List.map_nil]
      refine List.nodup_append.mpr ⟨h.nodup _, List.nodup_singleton _, ?_⟩
      rintro a ha c hc rfl
      obtain ⟨y, hy, rfl⟩ := List.mem_map.mp ha
      exact get_eq_none_iff.mp hx y hy (List.mem_singleton.mp hc)
    · simp only [Table.append, Function.update_of_ne hb]
      exact h.nodup b

theorem Wf.remove (h : t.Wf key) : (t.remove key k).Wf key where
  small := h.small
  home := by
    intro b y hy
    by_cases hb : b = t.hash k
    · subst hb
      simp only [Table.remove, Function.update_self] at hy
      exact h.home _ y (List.mem_of_mem_eraseP hy)
    · simp only [Table.remove, Function.update_of_ne hb] at hy
      exact h.home b y hy
  nodup := by
    intro b
    by_cases hb : b = t.hash k
    · subst hb
      simp only [Table.remove, Function.update_self]
      exact (h.nodup _).sublist ((List.eraseP_sublist).map key)
    · simp only [Table.remove, Function.update_of_ne hb]
      exact h.nodup b

theorem Wf.modify {f : ι → ι} (hf : ∀ x, key (f x) = key x) (h : t.Wf key) : (t.modify key k f).Wf key where
  small := h.small
  home := by
    intro b y hy
    by_cases hb : b = t.hash k
    · subst hb
      simp only [Table.modify, Function.update_self, List.mem_map] at hy
      obtain ⟨z, hz, rfl⟩ := hy
      split
      · rw [hf]; exact h.home _ z hz
      · exact h.home _ z hz
    · simp only [Table.modify, Function.update_of_ne hb] at hy
      exact h.home b y hy
  nodup := by
    intro b
    by_cases hb : b = t.hash k
    · subst hb
      have hkey : ((t.buckets (t.hash k)).map fun x => if key x = k then f x else x).map key =
          (t.buckets (t.hash k)).map key := by
        rw [List.map_map]
        apply List.map_congr_left
        intro z _
        by_cases hz : key z = k
        · simp [hz, hf]
        · simp [hz]
      simp only [Table.modify, Function.update_self, hkey]
      exact h.nodup _
    · simp only [Table.modify, Function.update_of_ne hb]
      exact h.nodup b

/-! ## 要素の多重集合 -/

omit [DecidableEq κ] in
theorem items_update {b : Nat} {l : List ι} (hb : b < t.size) :
    Table.items { t with buckets := Function.update t.buckets b l } + t.buckets b = l + t.items := by
  have hmem : b ∈ Finset.range t.size := Finset.mem_range.mpr hb
  have hfun : (fun c => (Function.update t.buckets b l c : Multiset ι)) =
      Function.update (fun c => (t.buckets c : Multiset ι)) b l := by
    funext c
    by_cases hc : c = b
    · subst hc; simp
    · simp [hc]
  have hsum := Finset.sum_eq_add_sum_sdiff_singleton_of_mem hmem fun c => (t.buckets c : Multiset ι)
  simp only [items]
  rw [hfun, Finset.sum_update_of_mem hmem, hsum, add_assoc, add_comm (t.buckets b : Multiset ι)]

omit [DecidableEq κ] in
theorem items_append (h : t.Wf key) : (t.append key x).items = x ::ₘ t.items := by
  have hu := items_update (l := t.buckets (t.hash (key x)) ++ [x]) (h.small (key x))
  apply add_right_cancel (b := (t.buckets (t.hash (key x)) : Multiset ι))
  rw [append, hu, ← Multiset.coe_add, ← Multiset.singleton_add, Multiset.coe_singleton, add_assoc, add_comm,
    add_assoc]

theorem items_remove (h : t.Wf key) (hx : t.get key k = some x) : t.items = x ::ₘ (t.remove key k).items := by
  obtain ⟨hkx, l₁, l₂, hl, hl₁⟩ := List.find?_eq_some_iff_append.mp hx
  have hkx : key x = k := by simpa using hkx
  have herase : (t.buckets (t.hash k)).eraseP (fun y => key y = k) = l₁ ++ l₂ := by
    rw [hl, List.eraseP_append_right _ (by intro y hy; simpa using hl₁ y hy)]
    simp [hkx]
  have hu := items_update (l := l₁ ++ l₂) (h.small k)
  apply add_left_cancel (a := ((l₁ ++ l₂ : List ι) : Multiset ι))
  rw [← hu, remove, herase, hl, ← Multiset.coe_add, ← Multiset.coe_add, ← Multiset.cons_coe,
    Multiset.add_cons, Multiset.add_cons, Multiset.add_cons, add_comm]

/-- 要素の書き換えで変わらない量 `g` の多重集合は変わらない。 -/
theorem items_modify_map {β : Type} {f : ι → ι} {g : ι → β} (hg : ∀ x, g (f x) = g x) :
    (t.modify key k f).items.map g = t.items.map g := by
  have hmap (u : Table κ ι) : u.items.map g = ∑ b ∈ Finset.range u.size, (u.buckets b : Multiset ι).map g :=
    map_sum (Multiset.mapAddMonoidHom g) _ _
  rw [hmap, hmap]
  apply Finset.sum_congr rfl
  intro b _
  by_cases hb : b = t.hash k
  · subst hb
    simp only [modify, Function.update_self, Multiset.map_coe, List.map_map]
    congr 1
    apply List.map_congr_left
    intro x _
    by_cases hx : key x = k
    · simp [hx, hg]
    · simp [hx]
  · simp [modify, hb]

theorem mem_items_iff (h : t.Wf key) : x ∈ t.items ↔ t.get key (key x) = some x := by
  rw [items, Multiset.mem_sum]
  constructor
  · rintro ⟨b, _, hx⟩
    obtain rfl := h.home b x hx
    cases hg : t.get key (key x) with
    | none => exact absurd rfl (get_eq_none_iff.mp hg x hx)
    | some y =>
        have hy : y ∈ t.buckets (t.hash (key x)) := List.mem_of_find?_eq_some hg
        rw [List.inj_on_of_nodup_map (h.nodup _) hy hx (key_of_get hg)]
  · intro hg
    exact ⟨t.hash (key x), Finset.mem_range.mpr (h.small _), List.mem_of_find?_eq_some hg⟩

theorem items_keys_nodup (h : t.Wf key) : (t.items.map key).Nodup := by
  rw [Multiset.nodup_iff_count_le_one]
  intro k
  have hmap : t.items.map key = ∑ b ∈ Finset.range t.size, (t.buckets b : Multiset ι).map key :=
    map_sum (Multiset.mapAddMonoidHom key) _ _
  rw [hmap, Multiset.count_sum', Finset.sum_eq_single (t.hash k)]
  · rw [Multiset.map_coe]
    exact Multiset.nodup_iff_count_le_one.mp (Multiset.coe_nodup.mpr (h.nodup _)) k
  · intro b _ hb
    rw [Multiset.count_eq_zero, Multiset.map_coe, Multiset.mem_coe]
    rintro hk
    obtain ⟨y, hy, rfl⟩ := List.mem_map.mp hk
    exact hb (h.home b y hy).symm
  · intro hb
    exact absurd (Finset.mem_range.mpr (h.small k)) hb

end Table

end Eleos
