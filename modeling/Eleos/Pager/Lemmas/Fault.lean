import Eleos.Pager.Run
import Eleos.Pager.Lemmas.Cache

/-!
# 追い出し、読み込み、参照の結果

`tryEvictPage`、`loadPage`、`pageFault`、`deref` が成功したときの次の状態を、名前を付けた状態の変換で表す。
不変条件の証明は、これらの変換ごとに行う。
-/

namespace Eleos.Pager

variable {cfg : Config} {G : Gcm} {host : (Nat → UInt8) → Nat → UInt8} {s s' : State} {a a' : Aptr} {p : Int}
  {it : Item} {i x : Nat}

/-! ## 変更の印とページの読み書き -/

@[simp] theorem clearTag_setTag (v : Nat) : clearTag (setTag v) = clearTag v := by
  unfold clearTag setTag; omega

@[simp] theorem clearTag_clearTag (v : Nat) : clearTag (clearTag v) = clearTag v := by
  unfold clearTag; omega

@[simp] theorem tagBit_setTag (v : Nat) : tagBit (setTag v) = true := by
  unfold tagBit setTag; simp; omega

@[simp] theorem tagBit_clearTag (v : Nat) : tagBit (clearTag v) = false := by
  unfold tagBit clearTag; simp; omega

theorem clearTag_of_tagBit_false {v : Nat} (h : tagBit v = false) : clearTag v = v := by
  unfold tagBit at h
  unfold clearTag
  simp at h
  omega

theorem Config.slot_ne_zero (cfg : Config) (i : Nat) : cfg.slot i ≠ 0 := by
  have h := cfg.slabPtr_ge
  have h1 : 1 ≤ cfg.slabPtr / pageSize := (Nat.one_le_div_iff (by decide)).mpr h
  have : 1 * pageSize ≤ cfg.slabPtr / pageSize * pageSize := Nat.mul_le_mul_right _ h1
  unfold Config.slot Config.slab
  simp only [pageSize] at *
  omega

@[simp] theorem readPage_writePage_self {m : Nat → UInt8} {b : Nat} {c : Page} :
    readPage (writePage m b c) b = c := by
  funext o
  simp [readPage, writePage]

theorem writePage_of_apart {m : Nat → UInt8} {b : Nat} {c : Page} (h : x < b ∨ b + pageSize ≤ x) :
    writePage m b c x = m x := by
  unfold writePage
  rw [dif_neg]
  omega

theorem readPage_writePage_of_apart {m : Nat → UInt8} {b d : Nat} {c : Page}
    (h : d + pageSize ≤ b ∨ b + pageSize ≤ d) : readPage (writePage m b c) d = readPage m d := by
  funext o
  have := o.isLt
  exact writePage_of_apart (by omega)

/-! ## 追い出し -/

/-- 項目 `it` を表から外し、枠を空きに戻した状態。 -/
def State.drop (s : State) (it : Item) (e : Option Seal) : State :=
  { s with
    l1 := { s.l1 with
      table := s.l1.table.remove Item.pageIndex it.pageIndex
      pageCacheSize := s.l1.pageCacheSize - 1 }
    freeEpcPages := it.epc :: s.freeEpcPages
    trace := .evict it.pageIndex e :: s.trace }

/-- 項目 `it` の枠の中身を暗号化して書き出した状態。 -/
def State.writeBack (s : State) (it : Item) (e : Seal) : State :=
  { s with
    epcArr := Function.update s.epcArr it.epc (clearTag (s.epcArr it.epc))
    llc := (s.llc.add it.pageIndex).write it.pageIndex e.nonce e.tag
    randPos := s.randPos + 1
    pool := writePage s.pool (ramPage it.pageIndex) e.cipher }

/-- 項目 `it` の枠の中身の暗号化が返す値。 -/
def State.Seals (G : Gcm) (s : State) (it : Item) (e : Seal) : Prop :=
  e.nonce = s.rand s.randPos ∧ e.plain = readPage s.epc (clearTag (s.epcArr it.epc)) ∧
    G.encrypt s.evictionKey e.nonce e.plain = some (e.cipher, e.tag)

theorem sealPage_ok_iff {e : Seal} :
    sealPage G { s with epcArr := Function.update s.epcArr it.epc (clearTag (s.epcArr it.epc)) } it.pageIndex
      (clearTag (s.epcArr it.epc)) = .ok (s', e) ↔ s.Seals G it e ∧ s' = s.writeBack it e := by
  unfold sealPage State.Seals
  constructor
  · intro h
    cases henc : G.encrypt s.evictionKey (s.rand s.randPos) (readPage s.epc (clearTag (s.epcArr it.epc))) with
    | none => simp [henc] at h
    | some r =>
        simp only [henc, Except.ok.injEq, Prod.mk.injEq] at h
        obtain ⟨rfl, rfl⟩ := h
        exact ⟨⟨rfl, rfl, henc⟩, rfl⟩
  · rintro ⟨⟨hn, hp, henc⟩, rfl⟩
    rw [hn, hp] at henc
    cases e with
    | mk n q c t =>
        simp only at hn hp henc
        subst hn hp
        simp [henc, State.writeBack]

/-- 追い出しは、変更がなければ枠を空けるだけであり、変更があればその前に中身を書き出す。 -/
theorem tryEvictPage_ok_iff : tryEvictPage G s it = .ok s' ↔
    (∃ it', s.l1.get it.pageIndex = some it') ∧
      ((tagBit (s.epcArr it.epc) = false ∧ s' = s.drop it none) ∨
        (tagBit (s.epcArr it.epc) = true ∧ ∃ e, s.Seals G it e ∧ s' = (s.writeBack it e).drop it (some e))) := by
  have hremove {c c' : PageCache} : c.remove it.pageIndex = .ok c' ↔
      (∃ it', c.get it.pageIndex = some it') ∧ c' = { c with
        table := c.table.remove Item.pageIndex it.pageIndex, pageCacheSize := c.pageCacheSize - 1 } := by
    constructor
    · intro h
      obtain ⟨it', hg, rfl⟩ := PageCache.remove_ok h
      exact ⟨⟨it', hg⟩, rfl⟩
    · rintro ⟨⟨it', hg⟩, rfl⟩
      simp [PageCache.remove, hg]
  unfold tryEvictPage
  cases hb : tagBit (s.epcArr it.epc) with
  | false =>
      simp only [hb, Bool.false_eq_true, ↓reduceIte, bind_ok_iff, hremove, Except.ok.injEq, Prod.exists, Prod.mk.injEq]
      constructor
      · rintro ⟨_, _, ⟨rfl, rfl⟩, _, ⟨hg, rfl⟩, rfl⟩
        exact ⟨hg, Or.inl ⟨trivial, rfl⟩⟩
      · rintro ⟨hg, ⟨_, rfl⟩ | ⟨h, _⟩⟩
        · exact ⟨s, none, ⟨rfl, rfl⟩, _, ⟨hg, rfl⟩, rfl⟩
        · cases h
  | true =>
      simp only [hb, ↓reduceIte, bind_ok_iff, hremove, sealPage_ok_iff, Except.ok.injEq, Prod.exists, Prod.mk.injEq]
      constructor
      · rintro ⟨_, e, ⟨he, rfl⟩, _, _, ⟨rfl, rfl⟩, _, ⟨hg, rfl⟩, rfl⟩
        exact ⟨hg, Or.inr ⟨trivial, e, he, rfl⟩⟩
      · rintro ⟨hg, ⟨h, _⟩ | ⟨_, e, he, rfl⟩⟩
        · cases h
        · exact ⟨_, e, ⟨he, rfl⟩, _, some e, ⟨rfl, rfl⟩, _, ⟨hg, rfl⟩, rfl⟩

theorem makeRoom_ok_iff : makeRoom cfg G s = .ok s' ↔
    (s.l1.pageCacheSize < cfg.cacheCapacity - maxNumOfThreadsOptimization ∧ s' = s) ∨
    (cfg.cacheCapacity - maxNumOfThreadsOptimization ≤ s.l1.pageCacheSize ∧
      ∃ it c, s.l1.getPageIndexToEvict = .ok (it, c) ∧ tryEvictPage G { s with l1 := c } it = .ok s') := by
  unfold makeRoom
  by_cases h : cfg.cacheCapacity - maxNumOfThreadsOptimization ≤ s.l1.pageCacheSize
  · rw [if_pos h]
    simp only [bind_ok_iff, Prod.exists, h, true_and, not_lt.mpr h, false_and, false_or]
  · rw [if_neg h]
    simp only [Except.ok.injEq, h, false_and, or_false, not_le.mp h, true_and, eq_comm]

/-! ## 読み込み -/

/-- 復号した内容があれば枠に書く。 -/
def State.slotAfter (s : State) (i : Nat) : Option Seal → Nat → UInt8
  | none => s.epc
  | some e => writePage s.epc (s.epcArr i) e.plain

/-- 枠 `i` を取り、ページ `p` の項目を加えた状態。 -/
def State.install (s : State) (p : Int) (i : Nat) (rest : List Nat) (e : Option Seal) : State :=
  { s with
    freeEpcPages := rest
    epc := s.slotAfter i e
    l1 := { s.l1 with
      table := s.l1.table.append Item.pageIndex ⟨p, i⟩
      usedPages := s.l1.usedPages.push p
      pageCacheSize := s.l1.pageCacheSize + 1 }
    trace := .load p i e (readPage (s.slotAfter i e) (s.epcArr i)) :: s.trace }

/-- `CryptoCache` の項目に応じた、読み込む内容。 -/
inductive State.Unseals (G : Gcm) (s : State) (p : Int) : Option Seal → Prop where
  | absent : s.llc.get p = none → State.Unseals G s p none
  | present {y : CryptoItem} {plain : Page} : s.llc.get p = some y →
      G.decrypt s.evictionKey y.nonce (readPage s.pool (ramPage p)) y.mac = some plain →
      State.Unseals G s p (some ⟨y.nonce, plain, readPage s.pool (ramPage p), y.mac⟩)

theorem fillSlot_ok_iff {e : Option Seal} :
    fillSlot G s p i = .ok (s', e) ↔ s.Unseals G p e ∧ s' = { s with epc := s.slotAfter i e } := by
  unfold fillSlot
  constructor
  · intro h
    cases hl : s.llc.get p with
    | none =>
        simp only [hl, Except.ok.injEq, Prod.mk.injEq] at h
        obtain ⟨rfl, rfl⟩ := h
        exact ⟨.absent hl, rfl⟩
    | some y =>
        simp only [hl] at h
        cases hd : G.decrypt s.evictionKey y.nonce (readPage s.pool (ramPage p)) y.mac with
        | none => simp [hd] at h
        | some plain =>
            simp only [hd, Except.ok.injEq, Prod.mk.injEq] at h
            obtain ⟨rfl, rfl⟩ := h
            exact ⟨.present hl hd, rfl⟩
  · rintro ⟨hu, rfl⟩
    cases hu with
    | absent hl => simp [hl, State.slotAfter]
    | present hl hd => simp [hl, hd, State.slotAfter]

theorem popFree_ok_iff : popFree s = .ok (i, s') ↔
    ∃ rest, s.freeEpcPages = i :: rest ∧ s' = { s with freeEpcPages := rest } := by
  unfold popFree
  cases hf : s.freeEpcPages with
  | nil => simp
  | cons j rest =>
      constructor
      · intro h
        cases h
        exact ⟨rest, rfl, rfl⟩
      · rintro ⟨rest', h, rfl⟩
        cases h
        rfl

theorem State.Unseals.congr_free {e : Option Seal} {l : List Nat} :
    State.Unseals G { s with freeEpcPages := l } p e ↔ s.Unseals G p e := by
  constructor
  · intro h
    cases h with
    | absent hl => exact .absent hl
    | present hl hd => exact .present hl hd
  · intro h
    cases h with
    | absent hl => exact .absent hl
    | present hl hd => exact .present hl hd

/-- 表にないページの読み込みは、空きの枠があり、待ち行列に余りがあり、復号できるときに限り成功する。 -/
theorem loadPage_ok_iff (hg : s.l1.get p = none) : loadPage G s p = .ok (s', i) ↔
    ∃ rest e, s.freeEpcPages = i :: rest ∧ s.l1.usedPages.rear - s.l1.usedPages.front ≠ s.l1.usedPages.size ∧
      s.Unseals G p e ∧ s' = s.install p i rest e := by
  constructor
  · intro h
    obtain ⟨⟨j, t⟩, hpop, h⟩ := bind_ok_iff.mp h
    obtain ⟨rest, hf, rfl⟩ := popFree_ok_iff.mp hpop
    obtain ⟨⟨t, e⟩, hfill, h⟩ := bind_ok_iff.mp h
    obtain ⟨hu, rfl⟩ := fillSlot_ok_iff.mp hfill
    obtain ⟨⟨b, c⟩, hadd, h⟩ := bind_ok_iff.mp h
    obtain ⟨rfl, hroom, rfl⟩ := PageCache.tryAdd_of_none hg hadd
    simp only [↓reduceIte, Except.ok.injEq, Prod.mk.injEq] at h
    obtain ⟨rfl, rfl⟩ := h
    exact ⟨rest, e, hf, hroom, State.Unseals.congr_free.mp hu, rfl⟩
  · rintro ⟨rest, e, hf, hroom, hu, rfl⟩
    refine bind_ok_iff.mpr ⟨⟨i, _⟩, popFree_ok_iff.mpr ⟨rest, hf, rfl⟩, ?_⟩
    refine bind_ok_iff.mpr ⟨⟨_, e⟩, fillSlot_ok_iff.mpr ⟨State.Unseals.congr_free.mpr hu, rfl⟩, ?_⟩
    exact bind_ok_iff.mpr ⟨⟨true, _⟩, PageCache.tryAdd_ok_of_room hg hroom, rfl⟩

/-! ## 枠の番地 -/

/-- 印を除けば、`epc_arr` の各位置の番地は初めのままである。 -/
def State.Slots (cfg : Config) (s : State) : Prop := ∀ i, clearTag (s.epcArr i) = cfg.slot i

theorem State.Slots.ne_zero (h : s.Slots cfg) (i : Nat) : s.epcArr i ≠ 0 := by
  intro h0
  have := h i
  rw [h0] at this
  exact cfg.slot_ne_zero i this.symm

/-- 追い出しと読み込みが変えないもの。 -/
structure State.Frame (s s' : State) : Prop where
  refCount : s'.l1.refCount = s.l1.refCount
  store : s'.l1.backingStoreSize = s.l1.backingStoreSize
  clear : ∀ i, clearTag (s'.epcArr i) = clearTag (s.epcArr i)
  key : s'.evictionKey = s.evictionKey
  rand : s'.rand = s.rand

theorem State.Frame.refl : s.Frame s := ⟨rfl, rfl, fun _ => rfl, rfl, rfl⟩

theorem State.Frame.trans {s₁ : State} (h : s.Frame s₁) (h' : s₁.Frame s') : s.Frame s' :=
  ⟨h'.refCount.trans h.refCount, h'.store.trans h.store, fun i => (h'.clear i).trans (h.clear i),
    h'.key.trans h.key, h'.rand.trans h.rand⟩

theorem State.Frame.slots (h : s.Frame s') (hs : s.Slots cfg) : s'.Slots cfg := fun i => (h.clear i).trans (hs i)

theorem clearTag_update {f : Nat → Nat} {v : Nat} (hv : clearTag v = clearTag (f i)) (j : Nat) :
    clearTag (Function.update f i v j) = clearTag (f j) := by
  by_cases hj : j = i
  · subst hj
    rw [Function.update_self, hv]
  · rw [Function.update_of_ne hj]

theorem makeRoom_frame (h : makeRoom cfg G s = .ok s') : s.Frame s' := by
  rcases makeRoom_ok_iff.mp h with ⟨_, rfl⟩ | ⟨_, it, c, hscan, h⟩
  · exact .refl
  · obtain ⟨_, _, r, rfl⟩ := PageCache.getPageIndexToEvict_ok hscan
    obtain ⟨_, ⟨_, rfl⟩ | ⟨_, e, _, rfl⟩⟩ := tryEvictPage_ok_iff.mp h
    · exact ⟨rfl, rfl, fun _ => rfl, rfl, rfl⟩
    · exact ⟨rfl, rfl, clearTag_update (clearTag_clearTag _), rfl, rfl⟩

theorem loadPage_frame (hg : s.l1.get p = none) (h : loadPage G s p = .ok (s', i)) : s.Frame s' := by
  obtain ⟨rest, e, _, _, _, rfl⟩ := (loadPage_ok_iff hg).mp h
  exact ⟨rfl, rfl, fun _ => rfl, rfl, rfl⟩

/-! ## `Aptr` の移動 -/

/-- 参照をたどるページ。 -/
def Aptr.target (a : Aptr) : Int := a.addr / pageSize

/-- 位置を正規化した `Aptr`。 -/
def Aptr.normal (a : Aptr) : Aptr :=
  { a with offset := a.offset % pageSize, page := a.target - a.basePageIndex }

/-- 位置を正規化し、枠 `i` につないだ `Aptr`。 -/
def Aptr.linkTo (a : Aptr) (i : Nat) : Aptr := { a.normal with prmPtr := some i }

/-- `Aptr` の値の範囲。つながっていれば、そのページはプールの中にある。 -/
structure Aptr.Bounded (cfg : Config) (a : Aptr) : Prop where
  base_lt : a.basePageIndex < 524288
  linked : a.prmPtr ≠ none → 0 ≤ a.basePageIndex ∧ 0 ≤ a.basePageIndex + a.page ∧
    a.basePageIndex + a.page < cfg.poolPages

/-- ページ `old` の参照を一つ外した数。 -/
def unlink (r : Int → UInt8) : Option Int → Int → UInt8
  | none => r
  | some q => Function.update r q (r q - 1)

def State.unlink (s : State) (old : Option Int) : State :=
  { s with l1 := { s.l1 with refCount := Pager.unlink s.l1.refCount old } }

/-- ページ `old` の参照を一つ外し、ページ `p` の参照を一つ増やした状態。 -/
def State.relink (s : State) (old : Option Int) (p : Int) : State :=
  { s with l1 := { s.l1 with
      refCount := Function.update (Pager.unlink s.l1.refCount old) p (Pager.unlink s.l1.refCount old p + 1) } }

theorem Aptr.target_eq (a : Aptr) : a.target = a.basePageIndex + a.page + a.offset / pageSize := by
  unfold Aptr.target Aptr.addr
  simp only [pageSize]
  omega

theorem Aptr.Derefable.target_nonneg (h : a.Derefable cfg) : 0 ≤ a.target :=
  Int.ediv_nonneg h.lo (by simp [pageSize])

theorem Aptr.Derefable.target_lt (h : a.Derefable cfg) : a.target < cfg.poolPages :=
  Int.ediv_lt_of_lt_mul (by simp [pageSize]) h.hi

theorem State.prm_ne_zero_iff (hs : s.Slots cfg) : s.prm a ≠ 0 ↔ a.prmPtr ≠ none := by
  unfold State.prm
  cases h : a.prmPtr with
  | none => simp
  | some i => simp [hs.ne_zero i]

theorem Aptr.reset_eq (hs : s.Slots cfg) (hstore : s.l1.backingStoreSize = cfg.poolPages) (hb : a.Bounded cfg) :
    a.reset s = .ok (s.unlink a.linkedPage?, { a with basePageIndex := -1, prmPtr := none }) := by
  unfold Aptr.reset
  cases hl : a.prmPtr with
  | none =>
      have hz : s.prm a = 0 := by simp [State.prm, hl]
      simp [hz, Aptr.linkedPage?, hl, State.unlink, Pager.unlink]
  | some i =>
      obtain ⟨hb0, hp0, hp1⟩ := hb.linked (by simp [hl])
      have hpool : (cfg.poolPages : Int) ≤ 524288 := by exact_mod_cast cfg.poolPages_le
      have hnz : s.prm a ≠ 0 := (State.prm_ne_zero_iff hs).mpr (by simp [hl])
      have hold : int32 (a.basePageIndex + a.page) = a.basePageIndex + a.page :=
        int32_of_range (by omega) (by omega)
      have hdec : s.l1.decRefCount (a.basePageIndex + a.page) = .ok { s.l1 with
          refCount := Pager.unlink s.l1.refCount (some (a.basePageIndex + a.page)) } :=
        PageCache.setRefCount_ok_iff.mpr ⟨⟨hp0, by rw [hstore]; exact hp1⟩, rfl⟩
      simp [hnz, not_lt.mpr hb0, hold, hdec, Bind.bind, Except.bind, State.unlink, Aptr.linkedPage?, hl]

section Deref

variable (hs : s.Slots cfg) (hstore : s.l1.backingStoreSize = cfg.poolPages) (hb : a.Bounded cfg)
  (hd : a.Derefable cfg)

include hs hstore hb hd

theorem retarget_eq : retarget s a = .ok (s.relink a.linkedPage? a.target, a.normal, a.target) := by
  have hpool : (cfg.poolPages : Int) ≤ 524288 := by exact_mod_cast cfg.poolPages_le
  have htarget := a.target_eq
  have h0 := hd.target_nonneg
  have h1 := hd.target_lt
  have hb0 := hd.base
  have hb1 := hb.base_lt
  have hreal : int32 (a.page + a.offset / pageSize) = a.target - a.basePageIndex := by
    rw [int32_of_range (by omega) (by omega)]
    omega
  have hindex : int32 a.target = a.target := int32_of_range (by omega) (by omega)
  have hinc {c : PageCache} (hc : c.backingStoreSize = cfg.poolPages) : c.incRefCount a.target =
      .ok { c with refCount := Function.update c.refCount a.target (c.refCount a.target + 1) } :=
    PageCache.setRefCount_ok_iff.mpr ⟨⟨h0, by rw [hc]; exact h1⟩, rfl⟩
  unfold retarget
  cases hl : a.prmPtr with
  | none =>
      have hz : s.prm a = 0 := by simp [State.prm, hl]
      simp [hz, hreal, hindex, hinc hstore, Bind.bind, Except.bind, State.relink, Pager.unlink, Aptr.normal,
        Aptr.linkedPage?, hl]
  | some i =>
      obtain ⟨_, hp0, hp1⟩ := hb.linked (by simp [hl])
      have hnz : s.prm a ≠ 0 := (State.prm_ne_zero_iff hs).mpr (by simp [hl])
      have hold : int32 (a.basePageIndex + a.page) = a.basePageIndex + a.page :=
        int32_of_range (by omega) (by omega)
      have hdec : s.l1.decRefCount (a.basePageIndex + a.page) = .ok { s.l1 with
          refCount := Function.update s.l1.refCount (a.basePageIndex + a.page)
            (s.l1.refCount (a.basePageIndex + a.page) - 1) } :=
        PageCache.setRefCount_ok_iff.mpr ⟨⟨hp0, by rw [hstore]; exact hp1⟩, rfl⟩
      simp [hnz, hreal, hindex, hold, hdec, hinc, hstore, Bind.bind, Except.bind, State.relink, Pager.unlink,
        Aptr.normal, Aptr.linkedPage?, hl]

theorem pageFault_ok_iff : pageFault cfg G host s a = .ok (s', a') ↔
    (∃ it, s.l1.get a.target = some it ∧ s' = s.relink a.linkedPage? a.target ∧
      a' = a.linkTo it.epc) ∨
    (s.l1.get a.target = none ∧ ∃ s₁ i, makeRoom cfg G (s.relink a.linkedPage? a.target) = .ok s₁ ∧
      loadPage G { s₁ with pool := host s₁.pool } a.target = .ok (s', i) ∧
      a' = a.linkTo i) := by
  unfold pageFault
  rw [retarget_eq hs hstore hb hd]
  have hget : (s.relink a.linkedPage? a.target).l1.get a.target = s.l1.get a.target := rfl
  cases hg : s.l1.get a.target with
  | some it => simp [Bind.bind, Except.bind, hget, hg, Aptr.linkTo, eq_comm]
  | none =>
      simp only [bind_ok_iff, Except.ok.injEq, exists_eq_left', hget, hg, Prod.exists, Prod.mk.injEq, true_and,
        reduceCtorEq, false_and, exists_false, false_or]
      constructor
      · rintro ⟨s₁, hm, s₂, i, hl, rfl, rfl⟩
        exact ⟨s₁, i, hm, hl, rfl⟩
      · rintro ⟨s₁, i, hm, hl, rfl⟩
        exact ⟨s₁, hm, s', i, hl, rfl, rfl⟩

end Deref

/-! ## `deref` -/

/-- `deref` が枠を得るまでの状態の変化。枠を得るのは、位置が同じページの中にあるとき、ページが枠にあるとき、読み込んだときである。 -/
inductive Fetch (cfg : Config) (G : Gcm) (host : (Nat → UInt8) → Nat → UInt8) (s : State) (a : Aptr) :
    State → Nat → Prop where
  | hit {i : Nat} : isValid a.offset = true → a.prmPtr = some i → Fetch cfg G host s a s i
  | minor {it : Item} : isValid a.offset = false → s.l1.get a.target = some it →
      Fetch cfg G host s a (s.relink a.linkedPage? a.target) it.epc
  | major {s₁ s₂ : State} {i : Nat} : isValid a.offset = false → s.l1.get a.target = none →
      makeRoom cfg G (s.relink a.linkedPage? a.target) = .ok s₁ →
      loadPage G { s₁ with pool := host s₁.pool } a.target = .ok (s₂, i) → Fetch cfg G host s a s₂ i

/-- 枠 `i` に変更の印を付けた状態。 -/
def State.mark (s : State) (i : Nat) (b : Bool) : State :=
  if b then { s with epcArr := Function.update s.epcArr i (setTag (s.epcArr i)) } else s

@[simp] theorem State.mark_l1 {b : Bool} : (s.mark i b).l1 = s.l1 := by
  cases b with
  | false => rfl
  | true => rfl

@[simp] theorem State.mark_trace {b : Bool} : (s.mark i b).trace = s.trace := by
  cases b with
  | false => rfl
  | true => rfl

theorem State.Slots.mark {b : Bool} (h : s.Slots cfg) : (s.mark i b).Slots cfg := by
  cases b with
  | false => exact h
  | true => exact fun j => (clearTag_update (clearTag_setTag _) j).trans (h j)

theorem markDirty_eq (hs : s.Slots cfg) (hi : a.prmPtr = some i) :
    markDirty s a = .ok (s.mark i a.hintWrite) := by
  unfold markDirty State.mark
  cases a.hintWrite with
  | false => rfl
  | true => simp [hi, hs.ne_zero i]

theorem isValid_iff {o : Int} : isValid o = true ↔ 0 ≤ o ∧ o < pageSize := by
  unfold isValid
  simp only [Bool.and_eq_true, decide_eq_true_eq]
  exact and_comm

theorem Aptr.target_of_valid (hv : isValid a.offset = true) : a.target = a.basePageIndex + a.page := by
  rw [Aptr.target_eq, Int.ediv_eq_zero_of_lt (isValid_iff.mp hv).1 (isValid_iff.mp hv).2, Int.add_zero]

theorem Aptr.normal_of_valid (hv : isValid a.offset = true) : a.normal = a := by
  unfold Aptr.normal
  rw [Aptr.target_of_valid hv, Int.emod_eq_of_lt (isValid_iff.mp hv).1 (isValid_iff.mp hv).2]
  cases a
  simp

/-- 追い出しは、表にないページを加えない。 -/
theorem evict_get_none {c : PageCache} (hscan : s.l1.getPageIndexToEvict = .ok (it, c))
    (h : tryEvictPage G { s with l1 := c } it = .ok s') (hg : s.l1.get p = none) : s'.l1.get p = none := by
  obtain ⟨hit, _, r, rfl⟩ := PageCache.getPageIndexToEvict_ok hscan
  have hne : p ≠ it.pageIndex := by
    rintro rfl
    rw [hg] at hit
    cases hit
  have hget : Table.get Item.pageIndex (s.l1.table.remove Item.pageIndex it.pageIndex) p = none := by
    rw [Table.get_remove_ne hne]
    exact hg
  obtain ⟨_, ⟨_, rfl⟩ | ⟨_, e, _, rfl⟩⟩ := tryEvictPage_ok_iff.mp h
  · exact hget
  · exact hget

theorem makeRoom_get_none (h : makeRoom cfg G s = .ok s') (hg : s.l1.get p = none) : s'.l1.get p = none := by
  rcases makeRoom_ok_iff.mp h with ⟨_, rfl⟩ | ⟨_, it, c, hscan, h⟩
  · exact hg
  · exact evict_get_none hscan h hg

/-- 枠を得るまでの変化は、参照の付け替えのほかに、参照の数と枠の番地を変えない。 -/
theorem Fetch.frame {s₁ : State} (h : Fetch cfg G host s a s₁ i) :
    (s.relink a.linkedPage? a.target).Frame s₁ := by
  cases h with
  | hit hv hi =>
      have hl : a.linkedPage? = some a.target := by
        rw [Aptr.target_of_valid hv]
        simp [Aptr.linkedPage?, hi]
      exact ⟨by simp [hl, State.relink, Pager.unlink], rfl, fun _ => rfl, rfl, rfl⟩
  | minor hv hg => exact .refl
  | @major s₂ _ _ hv hg hm hl =>
      have hn := makeRoom_get_none hm hg
      have hf : s₂.Frame { s₂ with pool := host s₂.pool } := ⟨rfl, rfl, fun _ => rfl, rfl, rfl⟩
      exact (makeRoom_frame hm).trans (hf.trans (loadPage_frame hn hl))

theorem Fetch.slots {s₁ : State} (hs : s.Slots cfg) (h : Fetch cfg G host s a s₁ i) : s₁.Slots cfg :=
  h.frame.slots hs

theorem finish_ok_iff {b : Aptr} (hs : s.Slots cfg) (hi : b.prmPtr = some i) :
    (do let s₁ ← markDirty s b
        Except.ok (s₁, b, aptr2Addr s b)) = .ok (s', a', x) ↔
      s' = s.mark i b.hintWrite ∧ a' = b ∧ x = cfg.slot i + b.offset.toNat := by
  rw [markDirty_eq hs hi]
  simp [Bind.bind, Except.bind, aptr2Addr, State.prm, hi, hs i, eq_comm]

theorem deref_ok_iff (hs : s.Slots cfg) (hstore : s.l1.backingStoreSize = cfg.poolPages) (hb : a.Bounded cfg)
    (hd : a.Derefable cfg) : deref cfg G host s a = .ok (s', a', x) ↔
      ∃ s₁ i, Fetch cfg G host s a s₁ i ∧ s' = s₁.mark i a.hintWrite ∧
        a' = a.linkTo i ∧ x = cfg.slot i + (a.offset % pageSize).toNat := by
  unfold deref
  cases hv : isValid a.offset with
  | true =>
      have hl : a.prmPtr ≠ none := fun h => by simp [hd.biased h] at hv
      obtain ⟨i, hi⟩ := Option.ne_none_iff_exists'.mp hl
      have ha : a.linkTo i = a := by
        rw [Aptr.linkTo, Aptr.normal_of_valid hv, ← hi]
      have ho : a.offset % pageSize = a.offset := by
        rw [Int.emod_eq_of_lt (isValid_iff.mp hv).1 (isValid_iff.mp hv).2]
      simp only [↓reduceIte]
      refine (finish_ok_iff hs hi).trans ⟨?_, ?_⟩
      · rintro ⟨rfl, rfl, rfl⟩
        exact ⟨s, i, .hit hv hi, rfl, ha.symm, by rw [ho]⟩
      · rintro ⟨s₁, j, hf, rfl, rfl, rfl⟩
        cases hf with
        | hit _ hj =>
            cases hi.symm.trans hj
            exact ⟨rfl, ha, by rw [ho]⟩
        | minor hv' _ => simp [hv] at hv'
        | major hv' _ _ _ => simp [hv] at hv'
  | false =>
      simp only [Bool.false_eq_true, ↓reduceIte]
      constructor
      · intro h
        obtain ⟨⟨s₁, b⟩, hpf, h⟩ := bind_ok_iff.mp h
        rcases (pageFault_ok_iff hs hstore hb hd).mp hpf with ⟨it, hg, rfl, rfl⟩ | ⟨hg, s₂, i, hm, hl, rfl⟩
        · have hf : Fetch cfg G host s a _ it.epc := .minor hv hg
          obtain ⟨rfl, rfl, rfl⟩ := (finish_ok_iff (hf.slots hs) rfl).mp h
          exact ⟨_, _, hf, rfl, rfl, rfl⟩
        · have hf : Fetch cfg G host s a s₁ i := .major hv hg hm hl
          obtain ⟨rfl, rfl, rfl⟩ := (finish_ok_iff (hf.slots hs) rfl).mp h
          exact ⟨_, _, hf, rfl, rfl, rfl⟩
      · rintro ⟨s₁, i, hf, rfl, rfl, rfl⟩
        have hslots := hf.slots hs
        have hpf : pageFault cfg G host s a = .ok (s₁, a.linkTo i) := by
          rw [pageFault_ok_iff hs hstore hb hd]
          cases hf with
          | hit hv' _ => simp [hv] at hv'
          | minor _ hg => exact Or.inl ⟨_, hg, rfl, rfl⟩
          | major _ hg hm hl => exact Or.inr ⟨hg, _, i, hm, hl, rfl⟩
        exact bind_ok_iff.mpr ⟨_, hpf, (finish_ok_iff hslots rfl).mpr ⟨rfl, rfl, rfl⟩⟩

end Eleos.Pager
