import Eleos.Pager.Cache

/-!
# キャッシュの操作の結果

成功した操作が何を変えたかを、操作ごとに一つの補題にまとめる。あとの証明は操作の定義を開かない。
-/

namespace Eleos.Pager

variable {c c' : PageCache} {p q : Int} {it : Item}

/-! ## 待ち行列 -/

theorem UsedPagesQueue.enqueue_ok_iff {r r' : Ring Int} :
    UsedPagesQueue.enqueue r p = .ok r' ↔ r.rear - r.front ≠ r.size ∧ r' = r.push p := by
  unfold UsedPagesQueue.enqueue
  by_cases h : r.rear - r.front = r.size
  · simp [h]
  · simp [h, eq_comm]

theorem UsedPagesQueue.dequeue_ok_iff {r r' : Ring Int} :
    UsedPagesQueue.dequeue r = .ok (p, r') ↔ r.front ≠ r.rear ∧ p = r.top ∧ r' = r.pop := by
  unfold UsedPagesQueue.dequeue
  by_cases h : r.front = r.rear
  · simp [h]
  · simp [h, eq_comm]

/-! ## 参照の数 -/

theorem PageCache.setRefCount_ok_iff {f : UInt8 → UInt8} :
    c.setRefCount p f = .ok c' ↔ (0 ≤ p ∧ p < c.backingStoreSize) ∧
      c' = { c with refCount := Function.update c.refCount p (f (c.refCount p)) } := by
  unfold PageCache.setRefCount
  by_cases h : 0 ≤ p ∧ p < c.backingStoreSize
  · simp [h, eq_comm]
  · simp [h]

/-! ## 表 -/

theorem PageCache.pageIndex_of_get (h : c.get p = some it) : it.pageIndex = p := Table.key_of_get h

theorem PageCache.remove_ok (h : c.remove p = .ok c') :
    ∃ it, c.get p = some it ∧
      c' = { c with table := c.table.remove Item.pageIndex p, pageCacheSize := c.pageCacheSize - 1 } := by
  unfold PageCache.remove at h
  cases hg : c.get p with
  | none => rw [hg] at h; cases h
  | some it =>
      rw [hg] at h
      cases h
      exact ⟨it, rfl, rfl⟩

theorem PageCache.tryAdd_of_none {i : Nat} {b : Bool} (hg : c.get p = none) (h : c.tryAdd p i = .ok (b, c')) :
    b = true ∧ c.usedPages.rear - c.usedPages.front ≠ c.usedPages.size ∧
      c' = { c with
        table := c.table.append Item.pageIndex ⟨p, i⟩
        usedPages := c.usedPages.push p
        pageCacheSize := c.pageCacheSize + 1 } := by
  unfold PageCache.tryAdd at h
  rw [hg] at h
  obtain ⟨r, hr, h⟩ := bind_ok_iff.mp h
  obtain ⟨hne, rfl⟩ := UsedPagesQueue.enqueue_ok_iff.mp hr
  cases h
  exact ⟨rfl, hne, rfl⟩

theorem PageCache.tryAdd_ok_of_room {i : Nat} (hg : c.get p = none)
    (hroom : c.usedPages.rear - c.usedPages.front ≠ c.usedPages.size) :
    c.tryAdd p i = .ok (true, { c with
      table := c.table.append Item.pageIndex ⟨p, i⟩
      usedPages := c.usedPages.push p
      pageCacheSize := c.pageCacheSize + 1 }) := by
  unfold PageCache.tryAdd
  rw [hg]
  simp only [UsedPagesQueue.enqueue_ok_iff.mpr ⟨hroom, rfl⟩]
  rfl

/-! ## 追い出すページの選択 -/

/-- 選択は待ち行列だけを変え、参照のないページの項目を返す。 -/
theorem PageCache.scan_ok {n : Nat} (h : c.scan n = .ok (it, c')) :
    c.get it.pageIndex = some it ∧ c.refCount it.pageIndex = 0 ∧ ∃ r, c' = { c with usedPages := r } := by
  induction n generalizing c with
  | zero => cases h
  | succ n ih =>
      obtain ⟨⟨p, r⟩, _, h⟩ := bind_ok_iff.mp h
      simp only at h
      split at h
      · obtain ⟨r', _, h⟩ := bind_ok_iff.mp h
        obtain ⟨hg, hz, r'', hr⟩ := ih h
        exact ⟨hg, hz, r'', hr⟩
      · rename_i hz
        have hz : c.refCount p = 0 := by
          apply UInt8.toNat_inj.mp
          simpa [UInt8.lt_iff_toNat_lt] using hz
        cases hg : c.get p with
        | none => rw [hg] at h; cases h
        | some it' =>
            rw [hg] at h
            cases h
            rw [PageCache.pageIndex_of_get hg]
            exact ⟨hg, hz, r, rfl⟩

/-- 選択は、返すページだけを待ち行列から取り除く。 -/
theorem PageCache.scan_ring {n : Nat} (hw : c.usedPages.Wf) (h : c.scan n = .ok (it, c')) :
    c'.usedPages.Wf ∧ c'.usedPages.size = c.usedPages.size ∧
      (it.pageIndex :: c'.usedPages.toList).Perm c.usedPages.toList := by
  induction n generalizing c with
  | zero => cases h
  | succ n ih =>
      obtain ⟨⟨p, r⟩, hdeq, h⟩ := bind_ok_iff.mp h
      obtain ⟨hne, rfl, rfl⟩ := UsedPagesQueue.dequeue_ok_iff.mp hdeq
      have hlt : c.usedPages.front < c.usedPages.rear := by
        have := hw.le
        omega
      have hwp := hw.pop hlt
      simp only at h
      split at h
      · obtain ⟨r, henq, h⟩ := bind_ok_iff.mp h
        obtain ⟨hroom, rfl⟩ := UsedPagesQueue.enqueue_ok_iff.mp henq
        have hroom : c.usedPages.pop.rear - c.usedPages.pop.front < c.usedPages.pop.size := by
          have := hwp.room
          omega
        obtain ⟨hwr, hsr, hperm⟩ := ih (hwp.push hroom) h
        refine ⟨hwr, hsr, hperm.trans ?_⟩
        rw [Ring.toList_push hwp hroom, Ring.toList_pop hlt]
        exact List.perm_append_comm
      · cases hg : c.get c.usedPages.top with
        | none => rw [hg] at h; cases h
        | some jt =>
            rw [hg] at h
            cases h
            rw [PageCache.pageIndex_of_get hg, Ring.toList_pop hlt]
            exact ⟨hwp, rfl, List.Perm.refl _⟩

/-- 並びに参照のないページがあれば、選択は終わり、その最初のページを返す。飛ばしたページは並びの後ろに回る。 -/
theorem PageCache.scan_of_mem {n : Nat} {l₁ l₂ : List Int} (hw : c.usedPages.Wf)
    (hl : c.usedPages.toList = l₁ ++ p :: l₂) (hpre : ∀ q ∈ l₁, c.refCount q ≠ 0) (hz : c.refCount p = 0)
    (hg : c.get p = some it) (hn : l₁.length < n) :
    ∃ r, c.scan n = .ok (it, { c with usedPages := r }) ∧ r.toList = l₂ ++ l₁ := by
  induction n generalizing c l₁ l₂ with
  | zero => omega
  | succ n ih =>
      have hne : c.usedPages.front < c.usedPages.rear := by
        have := congrArg List.length hl
        simp at this
        omega
      have hpop := Ring.toList_pop hne
      have hdeq : UsedPagesQueue.dequeue c.usedPages = .ok (c.usedPages.top, c.usedPages.pop) :=
        UsedPagesQueue.dequeue_ok_iff.mpr ⟨by omega, rfl, rfl⟩
      have hwp := hw.pop hne
      rw [hl] at hpop
      cases l₁ with
      | nil =>
          rw [List.nil_append, List.cons.injEq] at hpop
          refine ⟨c.usedPages.pop, ?_, by rw [← hpop.2, List.append_nil]⟩
          simp [PageCache.scan, hdeq, ← hpop.1, hz, hg, Bind.bind, Except.bind]
      | cons q l₁ =>
          rw [List.cons_append, List.cons.injEq] at hpop
          have hq : c.refCount q > 0 := by
            have := hpre q List.mem_cons_self
            rw [gt_iff_lt, UInt8.lt_iff_toNat_lt]
            have hq' : (c.refCount q).toNat ≠ 0 := fun h0 => this (UInt8.toNat_inj.mp h0)
            simpa [Nat.pos_iff_ne_zero] using hq'
          have hroom : c.usedPages.pop.rear - c.usedPages.pop.front < c.usedPages.pop.size := by
            have := hw.room
            simp only [Ring.pop]
            omega
          have henq : UsedPagesQueue.enqueue c.usedPages.pop q = .ok (c.usedPages.pop.push q) :=
            UsedPagesQueue.enqueue_ok_iff.mpr ⟨by omega, rfl⟩
          have hl' : (c.usedPages.pop.push q).toList = l₁ ++ p :: (l₂ ++ [q]) := by
            rw [Ring.toList_push hwp hroom, ← hpop.2]
            simp
          obtain ⟨r, hr, hrl⟩ := ih (c := { c with usedPages := c.usedPages.pop.push q })
            (hwp.push hroom) hl' (fun q' hq' => hpre q' (List.mem_cons_of_mem _ hq')) hz hg
            (by simp at hn; omega)
          refine ⟨r, ?_, by rw [hrl, List.append_assoc, List.singleton_append]⟩
          simp only [PageCache.scan, hdeq, ← hpop.1, hq, ↓reduceIte, henq, Bind.bind, Except.bind]
          exact hr

theorem PageCache.scan_of_evict (h : c.getPageIndexToEvict = .ok (it, c')) :
    c.scan (c.usedPages.rear - c.usedPages.front) = .ok (it, c') := by
  unfold PageCache.getPageIndexToEvict at h
  by_cases hne : c.usedPages.front = c.usedPages.rear
  · rw [if_pos hne] at h
    cases h
  · rwa [if_neg hne] at h

theorem PageCache.getPageIndexToEvict_ok (h : c.getPageIndexToEvict = .ok (it, c')) :
    c.get it.pageIndex = some it ∧ c.refCount it.pageIndex = 0 ∧ ∃ r, c' = { c with usedPages := r } :=
  PageCache.scan_ok (PageCache.scan_of_evict h)

theorem PageCache.getPageIndexToEvict_ring (hw : c.usedPages.Wf) (h : c.getPageIndexToEvict = .ok (it, c')) :
    c'.usedPages.Wf ∧ c'.usedPages.size = c.usedPages.size ∧
      (it.pageIndex :: c'.usedPages.toList).Perm c.usedPages.toList :=
  PageCache.scan_ring hw (PageCache.scan_of_evict h)

theorem PageCache.select_first (hw : c.usedPages.Wf) (hq : ∀ p ∈ c.usedPages.toList, ∃ it, c.get p = some it)
    (hp : p ∈ c.usedPages.toList) (hz : c.refCount p = 0) :
    ∃ l₁ l₂ it r, c.usedPages.toList = l₁ ++ it.pageIndex :: l₂ ∧ (∀ q ∈ l₁, c.refCount q ≠ 0) ∧
      c.refCount it.pageIndex = 0 ∧ c.get it.pageIndex = some it ∧
      c.getPageIndexToEvict = .ok (it, { c with usedPages := r }) ∧ r.toList = l₂ ++ l₁ := by
  cases hfind : c.usedPages.toList.find? (fun p => c.refCount p = 0) with
  | none =>
      rw [List.find?_eq_none] at hfind
      simpa [hz] using hfind p hp
  | some q =>
      obtain ⟨hqz, l₁, l₂, hl, hpre⟩ := List.find?_eq_some_iff_append.mp hfind
      obtain ⟨it, hit⟩ := hq q (by rw [hl]; exact List.mem_append_right _ List.mem_cons_self)
      have hlen : l₁.length < c.usedPages.rear - c.usedPages.front := by
        rw [← Ring.toList_length, hl]
        simp
      obtain ⟨r, hscan, hr⟩ := PageCache.scan_of_mem hw hl (by simpa using hpre) (by simpa using hqz) hit hlen
      have hevict : c.getPageIndexToEvict = .ok (it, { c with usedPages := r }) := by
        rw [PageCache.getPageIndexToEvict, if_neg (by omega), hscan]
      have hk := PageCache.pageIndex_of_get hit
      rw [← hk] at hl hit hqz
      exact ⟨l₁, l₂, it, r, hl, by simpa using hpre, by simpa using hqz, hit, hevict, hr⟩

/-! ## `CryptoCache` -/

variable {m : CryptoCache} {x : CryptoItem}

theorem CryptoCache.get_add_self : ∃ y, (m.add p).get p = some y := by
  unfold CryptoCache.add
  cases hg : m.get p with
  | some y => exact ⟨y, hg⟩
  | none => exact ⟨_, Table.get_append_self hg⟩

theorem CryptoCache.get_add_ne (hne : q ≠ p) : (m.add p).get q = m.get q := by
  unfold CryptoCache.add
  cases hg : m.get p with
  | some y => rfl
  | none => exact Table.get_append_ne hne

theorem CryptoCache.get_write_self {n : Nonce} {t : Tag} :
    ((m.add p).write p n t).get p = some ⟨p, n, t⟩ := by
  obtain ⟨y, hy⟩ := CryptoCache.get_add_self (m := m) (p := p)
  have hk : y.pageIndex = p := Table.key_of_get hy
  have hget : ((m.add p).write p n t).get p =
      ((m.add p).get p).map fun x => { x with nonce := n, mac := t } :=
    Table.get_modify_self fun _ => rfl
  rw [hget, hy, ← hk]
  rfl

theorem CryptoCache.get_write_ne {n : Nonce} {t : Tag} (hne : q ≠ p) :
    ((m.add p).write p n t).get q = m.get q := by
  have hget : ((m.add p).write p n t).get q = (m.add p).get q := Table.get_modify_ne (fun _ => rfl) hne
  rw [hget, CryptoCache.get_add_ne hne]

end Eleos.Pager
