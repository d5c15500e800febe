import Eleos.Pager.Lemmas.Residency

/-!
# ページの中身

書き込んだ値の表 `M` に対して、ページの中身がどこにあるかを述べる。枠にあるページでは枠の中身が、
枠にないページでは復号した内容が `M` に合う。変更の印のない枠の中身は、復号した内容に等しい。
-/

namespace Eleos.Pager

variable {cfg : Config} {G : Gcm} {s s' : State} {a : Aptr} {p q : Int} {it : Item} {i : Nat}
  {M : Int → Option UInt8}

/-! ## 番地 -/

/-- ページ `p` の `o` 番目のバイトの番地。 -/
def byteAddr (p : Int) (o : Fin pageSize) : Int := p * pageSize + o

theorem byteAddr_inj {o o' : Fin pageSize} (h : byteAddr p o = byteAddr q o') : p = q ∧ o = o' := by
  have h₁ := o.isLt
  have h₂ := o'.isLt
  simp only [byteAddr, pageSize] at *
  exact ⟨by omega, Fin.ext (by omega)⟩

theorem Aptr.within_lt (a : Aptr) : (a.offset % pageSize).toNat < pageSize := by
  unfold pageSize
  omega

/-- 参照をたどるバイトの、ページの中の位置。 -/
def Aptr.within (a : Aptr) : Fin pageSize := ⟨(a.offset % pageSize).toNat, a.within_lt⟩

theorem Aptr.addr_eq (a : Aptr) : a.addr = byteAddr a.target a.within := by
  rw [Aptr.target_eq]
  simp only [Aptr.addr, byteAddr, Aptr.within, pageSize]
  omega

theorem slotAddr_eq : slotAddr cfg a i = cfg.slot i + a.within := rfl

theorem Config.slot_apart {j : Nat} (h : i ≠ j) :
    cfg.slot i + pageSize ≤ cfg.slot j ∨ cfg.slot j + pageSize ≤ cfg.slot i := by
  unfold Config.slot
  rcases Nat.lt_or_gt_of_ne h with h | h
  · left
    have := Nat.mul_le_mul_right pageSize h
    rw [Nat.succ_mul] at this
    omega
  · right
    have := Nat.mul_le_mul_right pageSize h
    rw [Nat.succ_mul] at this
    omega

theorem ramPage_eq (h : 0 ≤ p ∧ p < cfg.poolPages) : ramPage p = (p * pageSize).toNat := by
  have hpool : (cfg.poolPages : Int) ≤ 524288 := by exact_mod_cast cfg.poolPages_le
  unfold ramPage
  rw [int32_of_range]
  · simp only [pageSize]; omega
  · simp only [pageSize]; omega

theorem ramPage_apart (hp : 0 ≤ p ∧ p < cfg.poolPages) (hq : 0 ≤ q ∧ q < cfg.poolPages) (h : p ≠ q) :
    ramPage p + pageSize ≤ ramPage q ∨ ramPage q + pageSize ≤ ramPage p := by
  rw [ramPage_eq hp, ramPage_eq hq]
  simp only [pageSize]
  omega

/-! ## 中身の不変条件 -/

/-- `CryptoCache` の項目によって、プールのページ `p` は `c` に復号される。 -/
def State.Backed (G : Gcm) (s : State) (p : Int) (c : Page) : Prop :=
  ∃ y, s.llc.get p = some y ∧ G.decrypt s.evictionKey y.nonce (readPage s.pool (ramPage p)) y.mac = some c

theorem State.Backed.unique {c d : Page} (h : s.Backed G p c) (h' : s.Backed G p d) : c = d := by
  obtain ⟨y, hy, hc⟩ := h
  obtain ⟨y', hy', hd⟩ := h'
  cases hy.symm.trans hy'
  cases hc.symm.trans hd
  rfl

structure State.Holds (cfg : Config) (G : Gcm) (M : Int → Option UInt8) (s : State) : Prop where
  entry_range : ∀ p y, s.llc.get p = some y → 0 ≤ p ∧ p < cfg.poolPages
  decrypts : ∀ p y, s.llc.get p = some y → ∃ c, s.Backed G p c
  clean : ∀ p it c, s.l1.get p = some it → tagBit (s.epcArr it.epc) = false → s.Backed G p c →
    readPage s.epc (cfg.slot it.epc) = c
  clean_entry : ∀ p it o v, s.l1.get p = some it → tagBit (s.epcArr it.epc) = false →
    M (byteAddr p o) = some v → ∃ y, s.llc.get p = some y
  resident : ∀ p it (o : Fin pageSize) v, s.l1.get p = some it → M (byteAddr p o) = some v →
    s.epc (cfg.slot it.epc + o) = v
  absent : ∀ p o v, s.l1.get p = none → M (byteAddr p o) = some v → ∃ c, s.Backed G p c ∧ c o = v

theorem State.init_holds (cfg : Config) (epc pool : Nat → UInt8) (key : Key) (rand : Nat → Nonce) :
    (State.init cfg epc pool key rand).Holds cfg G fun _ => none := by
  have hget : ∀ p, (State.init cfg epc pool key rand).l1.get p = none := fun _ => rfl
  have hllc : ∀ p, (State.init cfg epc pool key rand).llc.get p = none := fun _ => rfl
  refine ⟨?_, ?_, ?_, ?_, ?_, ?_⟩
  · simp [hllc]
  · simp [hllc]
  · simp [hget]
  · simp [hget]
  · simp [hget]
  · simp

theorem State.Holds.withRefCount {r : Int → UInt8} (h : s.Holds cfg G M) :
    State.Holds cfg G M { s with l1 := { s.l1 with refCount := r } } :=
  ⟨h.entry_range, h.decrypts, h.clean, h.clean_entry, h.resident, h.absent⟩

theorem Gcm.Correct.decrypt_eq {k : Key} {n : Nonce} {c d : Page} {t : Tag} (hG : G.Correct)
    (h : G.encrypt k n c = some (d, t)) : G.decrypt k n d t = some c := by
  obtain ⟨d', t', henc, hdec⟩ := hG k n c
  cases h.symm.trans henc
  exact hdec

/-! ## 書き出し -/

theorem State.Backed.writeBack_self {e : Seal} (hG : G.Correct) (he : s.Seals G it e) :
    (s.writeBack it e).Backed G it.pageIndex e.plain := by
  refine ⟨_, CryptoCache.get_write_self, ?_⟩
  simp only [State.writeBack, readPage_writePage_self]
  exact hG.decrypt_eq he.2.2

theorem State.Backed.writeBack_ne {e : Seal} {c : Page} (hne : q ≠ it.pageIndex)
    (hq : 0 ≤ q ∧ q < cfg.poolPages) (hit : 0 ≤ it.pageIndex ∧ it.pageIndex < cfg.poolPages) :
    (s.writeBack it e).Backed G q c ↔ s.Backed G q c := by
  have hpage : readPage (writePage s.pool (ramPage it.pageIndex) e.cipher) (ramPage q) =
      readPage s.pool (ramPage q) := readPage_writePage_of_apart (ramPage_apart hq hit hne)
  have hget : (s.writeBack it e).llc.get q = s.llc.get q := CryptoCache.get_write_ne hne
  unfold State.Backed
  rw [hget]
  simp only [State.writeBack, hpage]

theorem State.Holds.writeBack {e : Seal} (hG : G.Correct) (hw : s.Wf cfg) (h : s.Holds cfg G M)
    (hit : s.l1.get it.pageIndex = some it) (he : s.Seals G it e) : (s.writeBack it e).Holds cfg G M := by
  have hrange := hw.page_range _ _ hit
  have hself := State.Backed.writeBack_self hG he
  have hget {q : Int} (hne : q ≠ it.pageIndex) : (s.writeBack it e).llc.get q = s.llc.get q :=
    CryptoCache.get_write_ne hne
  have hentry {q : Int} {y : CryptoItem} (hy : (s.writeBack it e).llc.get q = some y) :
      0 ≤ q ∧ q < cfg.poolPages := by
    by_cases hq : q = it.pageIndex
    · rw [hq]; exact hrange
    · exact h.entry_range q y ((hget hq).symm.trans hy)
  have htag {q : Int} {jt : Item} (hq : q ≠ it.pageIndex) (hj : s.l1.get q = some jt) :
      (s.writeBack it e).epcArr jt.epc = s.epcArr jt.epc := by
    have hne : jt.epc ≠ it.epc := fun heq => hq (hw.epc_inj q _ jt it hj hit heq)
    simp [State.writeBack, hne]
  refine ⟨fun q y => hentry, ?_, ?_, ?_, h.resident, ?_⟩
  · intro q y hy
    by_cases hq : q = it.pageIndex
    · subst hq
      exact ⟨_, hself⟩
    · obtain ⟨c, hc⟩ := h.decrypts q y ((hget hq).symm.trans hy)
      exact ⟨c, (State.Backed.writeBack_ne hq (hentry hy) hrange).mpr hc⟩
  · intro q jt c hj ht hc
    by_cases hq : q = it.pageIndex
    · subst hq
      cases hj.symm.trans hit
      rw [← hself.unique hc, he.2.1, hw.slots]
      rfl
    · have hc' := hc
      obtain ⟨y, hy, _⟩ := hc
      exact h.clean q jt c hj ((htag hq hj) ▸ ht)
        ((State.Backed.writeBack_ne hq (hentry hy) hrange).mp hc')
  · intro q jt o v hj ht hv
    by_cases hq : q = it.pageIndex
    · subst hq
      obtain ⟨y, hy, _⟩ := hself
      exact ⟨y, hy⟩
    · rw [hget hq]
      exact h.clean_entry q jt o v hj ((htag hq hj) ▸ ht) hv
  · intro q o v hn hv
    have hq : q ≠ it.pageIndex := by
      rintro rfl
      cases hn.symm.trans hit
    obtain ⟨c, hc, hcv⟩ := h.absent q o v hn hv
    have hc' := hc
    obtain ⟨y, hy, _⟩ := hc
    exact ⟨c, (State.Backed.writeBack_ne hq (h.entry_range q y hy) hrange).mpr hc', hcv⟩

/-! ## 項目の出し入れ -/

theorem State.Holds.drop {r : Ring Int} {e : Option Seal} (hw : s.Wf cfg) (h : s.Holds cfg G M)
    (hit : s.l1.get it.pageIndex = some it) (hclean : tagBit (s.epcArr it.epc) = false) :
    ((s.rotate r).drop it e).Holds cfg G M := by
  have hget {q : Int} := State.get_drop (e := e) (r := r) hw it q
  have hmem {q : Int} {jt : Item} (hq : ((s.rotate r).drop it e).l1.get q = some jt) := (State.mem_drop hw hq).2
  refine ⟨h.entry_range, h.decrypts, fun q jt c hq => h.clean q jt c (hmem hq),
    fun q jt o v hq => h.clean_entry q jt o v (hmem hq), fun q jt o v hq => h.resident q jt o v (hmem hq), ?_⟩
  intro q o v hn hv
  rw [hget] at hn
  split at hn
  · rename_i hq
    subst hq
    -- 変更のない枠の中身は、復号した内容に等しい。
    obtain ⟨y, hy⟩ := h.clean_entry _ it o v hit hclean hv
    obtain ⟨c, hc⟩ := h.decrypts _ y hy
    refine ⟨c, hc, ?_⟩
    rw [← h.clean _ it c hit hclean hc]
    exact h.resident _ it o v hit hv
  · exact h.absent q o v hn hv

theorem State.Holds.install {l : List Nat} {e : Option Seal} (hw : s.Wf cfg) (h : s.Holds cfg G M)
    (hg : s.l1.get p = none) (hf : s.freeEpcPages = i :: l) (hu : s.Unseals G p e) :
    (s.install p i l e).Holds cfg G M := by
  have hget {q : Int} := State.get_install (i := i) (l := l) (e := e) hg q
  have hi : tagBit (s.epcArr i) = false := hw.free_clean i (by rw [hf]; exact List.mem_cons_self)
  have hslot : s.epcArr i = cfg.slot i := by rw [← clearTag_of_tagBit_false hi, hw.slots i]
  have hne {q : Int} {jt : Item} (hq : s.l1.get q = some jt) : i ≠ jt.epc := by
    rintro rfl
    exact hw.free_apart q jt hq (by rw [hf]; exact List.mem_cons_self)
  have hfill {c : Page} (hc : s.Backed G p c) : readPage (s.slotAfter i e) (cfg.slot i) = c := by
    cases hu with
    | absent hn =>
        obtain ⟨y, hy, _⟩ := hc
        cases hn.symm.trans hy
    | present hy hd =>
        rw [State.slotAfter, hslot, readPage_writePage_self]
        exact State.Backed.unique ⟨_, hy, hd⟩ hc
  have hkeep {j x : Nat} (hj : i ≠ j) (hx : x < pageSize) : s.slotAfter i e (cfg.slot j + x) = s.epc (cfg.slot j + x) := by
    cases e with
    | none => rfl
    | some e =>
        have := cfg.slot_apart hj
        rw [State.slotAfter, hslot]
        exact writePage_of_apart (by omega)
  refine ⟨h.entry_range, h.decrypts, ?_, ?_, ?_, ?_⟩
  · intro q jt c hq ht hc
    rw [hget] at hq
    split at hq
    · rename_i heq
      cases hq
      subst heq
      exact hfill hc
    · rw [← h.clean q jt c hq ht hc]
      funext o
      exact hkeep (hne hq) o.isLt
  · intro q jt o v hq ht hv
    rw [hget] at hq
    split at hq
    · rename_i heq
      subst heq
      obtain ⟨c, ⟨y, hy, _⟩, _⟩ := h.absent q o v hg hv
      exact ⟨y, hy⟩
    · exact h.clean_entry q jt o v hq ht hv
  · intro q jt o v hq hv
    rw [hget] at hq
    split at hq
    · rename_i heq
      cases hq
      subst heq
      obtain ⟨c, hc, hcv⟩ := h.absent q o v hg hv
      rw [← hcv, ← hfill hc]
      rfl
    · rw [← h.resident q jt o v hq hv]
      exact hkeep (hne hq) o.isLt
  · intro q o v hn hv
    rw [hget] at hn
    split at hn
    · cases hn
    · exact h.absent q o v hn hv

theorem Room.holds (hG : G.Correct) (hw : s.Wf cfg) (h : s.Holds cfg G M) (hr : Room cfg G s s') :
    s'.Holds cfg G M := by
  cases hr with
  | skip _ => exact h
  | clean hit _ _ _ _ ht => exact h.drop hw hit ht
  | dirty hit _ _ _ _ ht he =>
      exact (h.writeBack hG hw hit he).drop hw.writeBack hit (by simp [State.writeBack])

/-! ## 読み書き -/

theorem State.Holds.mark {b : Bool} (h : s.Holds cfg G M) : (s.mark i b).Holds cfg G M := by
  cases b with
  | false => exact h
  | true =>
      have htag {j : Nat} (ht : tagBit ((s.mark i true).epcArr j) = false) : tagBit (s.epcArr j) = false := by
        by_cases hj : j = i
        · subst hj
          simp [State.mark] at ht
        · simpa [State.mark, hj] using ht
      exact ⟨h.entry_range, h.decrypts, fun q jt c hq ht => h.clean q jt c hq (htag ht),
        fun q jt o v hq ht => h.clean_entry q jt o v hq (htag ht), h.resident, h.absent⟩

/-- 印を付けた枠への書き込み。 -/
theorem State.Holds.write {v : UInt8} {o : Fin pageSize} {l : List Event} (hw : s.Wf cfg) (h : s.Holds cfg G M)
    (hg : s.l1.get p = some ⟨p, i⟩) (ht : tagBit (s.epcArr i) = true) :
    State.Holds cfg G (Function.update M (byteAddr p o) (some v))
      { s with epc := Function.update s.epc (cfg.slot i + o) v, trace := l } := by
  have hne {q : Int} {jt : Item} (hq : s.l1.get q = some jt) (hqp : q ≠ p) : jt.epc ≠ i :=
    fun heq => hqp (hw.epc_inj q p jt ⟨p, i⟩ hq hg heq)
  have hkeep {j : Nat} (o' : Fin pageSize) (hj : j ≠ i) :
      Function.update s.epc (cfg.slot i + o) v (cfg.slot j + o') = s.epc (cfg.slot j + o') := by
    have := cfg.slot_apart hj
    have := o.isLt
    have := o'.isLt
    rw [Function.update_of_ne]
    omega
  have hM {q : Int} {o' : Fin pageSize} (hqp : q ≠ p) :
      Function.update M (byteAddr p o) (some v) (byteAddr q o') = M (byteAddr q o') := by
    rw [Function.update_of_ne]
    intro heq
    exact hqp (byteAddr_inj heq).1
  have hclean {q : Int} {jt : Item} (hq : s.l1.get q = some jt) (hc : tagBit (s.epcArr jt.epc) = false) :
      q ≠ p := by
    rintro rfl
    cases hg.symm.trans hq
    simp [ht] at hc
  refine ⟨h.entry_range, h.decrypts, ?_, ?_, ?_, ?_⟩
  · intro q jt c hq hc hb
    rw [← h.clean q jt c hq hc hb]
    funext o'
    simp only [readPage]
    exact hkeep o' (hne hq (hclean hq hc))
  · intro q jt o' v' hq hc hv
    rw [hM (hclean hq hc)] at hv
    exact h.clean_entry q jt o' v' hq hc hv
  · intro q jt o' v' hq hv
    by_cases hqp : q = p
    · subst hqp
      cases hg.symm.trans hq
      by_cases ho : o' = o
      · subst ho
        simpa using hv
      · have hb : byteAddr q o' ≠ byteAddr q o := fun heq => ho (byteAddr_inj heq).2
        rw [Function.update_of_ne hb] at hv
        rw [← h.resident q _ o' v' hq hv]
        exact Function.update_of_ne (fun heq => ho (Fin.ext (by simpa using heq))) _ _
    · rw [hM hqp] at hv
      rw [← h.resident q jt o' v' hq hv]
      dsimp only
      exact hkeep o' (hne hq hqp)
  · intro q o' v' hn hv
    have hqp : q ≠ p := by
      rintro rfl
      cases hn.symm.trans hg
    rw [hM hqp] at hv
    exact h.absent q o' v' hn hv

theorem Fetch.holds {t : State} (hG : G.Correct) (hw : s.Wf cfg) (h : s.Holds cfg G M)
    (hf : Fetch cfg G id s a t i) : t.Holds cfg G M := by
  cases hf with
  | hit hv hi => exact h
  | minor hv hg => exact h.withRefCount
  | @major s₁ _ _ hv hg hm hl =>
      have hw' : (s.relink a.linkedPage? a.target).Wf cfg := hw.withRefCount
      have hr := makeRoom_room hw' hm
      have hn := makeRoom_get_none hm hg
      obtain ⟨rest, e, hfree, _, hu, rfl⟩ := (loadPage_ok_iff (by exact hn)).mp hl
      exact (hr.holds hG hw' h.withRefCount).install (hr.wf hw') hn hfree hu

/-! ## 履歴 -/

theorem lastWrite_append {l₁ l₂ : List Event} (h : ∀ ev ∈ l₁, ev.Paging) : lastWrite (l₁ ++ l₂) = lastWrite l₂ := by
  induction l₁ with
  | nil => rfl
  | cons ev l₁ ih =>
      have hev := h ev List.mem_cons_self
      rw [← ih fun e he => h e (List.mem_cons_of_mem _ he)]
      cases ev with
      | evict p e => rfl
      | load p i e c => rfl
      | read x v => cases hev
      | write x v => cases hev

theorem lastWrite_write {l : List Event} {x : Int} {v : UInt8} :
    lastWrite (.write x v :: l) = Function.update (lastWrite l) x (some v) := by
  funext y
  by_cases h : y = x
  · subst h
    simp [lastWrite]
  · simp [lastWrite, h]

theorem Coherent.cons {l : List Event} {ev : Event} (h : Coherent l)
    (hev : ∀ x v w, ev = .read x v → lastWrite l x = some w → v = w) : Coherent (ev :: l) := by
  intro l₁ x v l₂ heq w hw
  cases l₁ with
  | nil =>
      rw [List.nil_append, List.cons.injEq] at heq
      obtain ⟨rfl, rfl⟩ := heq
      exact hev x v w rfl hw
  | cons e l₁ =>
      rw [List.cons_append, List.cons.injEq] at heq
      exact h l₁ x v l₂ heq.2 w hw

theorem Coherent.append {l₁ l₂ : List Event} (h : Coherent l₂) (hl : ∀ ev ∈ l₁, ev.Paging) :
    Coherent (l₁ ++ l₂) := by
  induction l₁ with
  | nil => exact h
  | cons ev l₁ ih =>
      refine Coherent.cons (ih fun e he => hl e (List.mem_cons_of_mem _ he)) ?_
      rintro x v w rfl
      exact (hl _ List.mem_cons_self).elim

/-! ## 操作の列 -/

/-- 実行の不変条件。 -/
structure Sys.Good (cfg : Config) (G : Gcm) (s : Sys) : Prop where
  pinned : s.Pinned cfg
  wf : s.state.Wf cfg
  links : ∀ a i, some a ∈ s.aptrs → a.prmPtr = some i →
    s.state.l1.get (a.basePageIndex + a.page) = some ⟨a.basePageIndex + a.page, i⟩
  holds : s.state.Holds cfg G (lastWrite s.state.trace)
  coherent : Coherent s.state.trace

theorem Sys.init_good (cfg : Config) (epc pool : Nat → UInt8) (key : Key) (rand : Nat → Nonce) :
    (Sys.init cfg epc pool key rand).Good cfg G where
  pinned := Sys.init_pinned cfg epc pool key rand
  wf := State.init_wf cfg epc pool key rand
  links := by simp [Sys.init]
  holds := State.init_holds cfg epc pool key rand
  coherent := by
    intro l₁ a v l₂ h
    simp [Sys.init, State.init] at h

theorem Sys.linkedCount_pos {s : Sys} {b : Aptr} {j : Nat} (hb : some b ∈ s.aptrs) (hj : b.prmPtr = some j) :
    0 < s.linkedCount (b.basePageIndex + b.page) := by
  refine List.count_pos_iff.mpr (List.mem_filterMap.mpr ⟨some b, hb, ?_⟩)
  simp [Aptr.linkedPage?, hj]

/-- つながっているページの参照の数は 0 でない。 -/
theorem Sys.Pinned.refCount_ne_zero {s : Sys} {b : Aptr} {j : Nat} (hp : s.Pinned cfg) (hw : s.Within cfg)
    (hb : some b ∈ s.aptrs) (hj : b.prmPtr = some j) : s.state.l1.refCount (b.basePageIndex + b.page) ≠ 0 := by
  have hpos := Sys.linkedCount_pos hb hj
  have hle := hw.links (b.basePageIndex + b.page)
  intro h0
  have hc := congrArg UInt8.toNat (h0.symm.trans (hp.count (b.basePageIndex + b.page)))
  rw [UInt8.toNat_ofNat'] at hc
  simp at hc
  omega

/-- 枠の配置の不変条件。プールの中身によらない。 -/
structure Sys.Placed (cfg : Config) (s : Sys) : Prop where
  pinned : s.Pinned cfg
  wf : s.state.Wf cfg
  links : ∀ a i, some a ∈ s.aptrs → a.prmPtr = some i →
    s.state.l1.get (a.basePageIndex + a.page) = some ⟨a.basePageIndex + a.page, i⟩

theorem Fetch.placed {s : Sys} {d : Nat} {t : State} {host : (Nat → UInt8) → Nat → UInt8} (h : s.Placed cfg) (ha : s.get d = .ok a) (hd : a.Derefable cfg)
    (hf : Fetch cfg G host s.state a t i) (hw : (s.fetched d a t i).Within cfg) : (s.fetched d a t i).Placed cfg := by
  have hp := hf.pinned h.pinned ha hd
  obtain ⟨hget, hkeep⟩ := hf.get h.wf fun j hj => h.links a j (Sys.mem_of_get ha) hj
  have hw₁ := hf.wf h.wf hd
  refine ⟨hp, hw₁.mark (hw₁.free_apart _ _ hget), ?_⟩
  intro b j hm hj
  have hz : t.l1.refCount (b.basePageIndex + b.page) ≠ 0 := by
    have hz := hp.refCount_ne_zero hw hm hj
    simp only [Sys.fetched, Sys.set, State.mark_l1] at hz
    exact hz
  simp only [Sys.fetched, Sys.set, State.mark_l1]
  rcases List.mem_or_eq_of_mem_set hm with hm | hm
  · exact hkeep _ _ (h.links b j hm hj) hz
  · cases hm
    cases hj
    simpa [Aptr.linkTo, Aptr.normal] using hget

theorem Move.placed {s s' : Sys} {host : (Nat → UInt8) → Nat → UInt8} (h : s.Placed cfg) (hw : s'.Within cfg) (hm : Move cfg G host s s') : s'.Placed cfg := by
  have hp := hm.pinned h.pinned
  cases hm with
  | @add a hl hb =>
      refine ⟨hp, h.wf, ?_⟩
      intro b j hm hj
      rcases List.mem_append.mp hm with hm | hm
      · exact h.links b j hm hj
      · cases List.mem_singleton.mp hm
        cases hl.symm.trans hj
  | @edit d a a' ha hl hpg hbs =>
      refine ⟨hp, h.wf, ?_⟩
      intro b j hm hj
      rcases List.mem_or_eq_of_mem_set hm with hm | hm
      · exact h.links b j hm hj
      · cases hm
        rw [hbs, hpg]
        exact h.links a j (Sys.mem_of_get ha) (hl.symm.trans hj)
  | @release d a o ha ho =>
      refine ⟨hp, h.wf.withRefCount, ?_⟩
      intro b j hm hj
      rcases List.mem_or_eq_of_mem_set hm with hm | rfl
      · exact h.links b j hm hj
      · cases (ho b rfl).1.symm.trans hj
  | @access d a s₁ i w ha hd hhint hf =>
      have hpl := hf.placed h ha hd ⟨hw.links, hw.pages⟩
      cases w with
      | none => exact ⟨hp, hpl.wf.withBytes, hpl.links⟩
      | some v => exact ⟨hp, hpl.wf.withBytes, hpl.links⟩

theorem Sys.Good.placed {s : Sys} (h : s.Good cfg G) : s.Placed cfg := ⟨h.pinned, h.wf, h.links⟩

/-- 枠を得て `Aptr` をつないでも、不変条件は保たれる。 -/
theorem Fetch.good {s : Sys} {d : Nat} {t : State} (hG : G.Correct) (h : s.Good cfg G) (ha : s.get d = .ok a)
    (hd : a.Derefable cfg) (hf : Fetch cfg G id s.state a t i) (hw : (s.fetched d a t i).Within cfg) :
    (s.fetched d a t i).Good cfg G ∧ (s.fetched d a t i).state.l1.get a.target = some ⟨a.target, i⟩ ∧
      ∃ l, (s.fetched d a t i).state.trace = l ++ s.state.trace ∧ ∀ ev ∈ l, ev.Paging := by
  have hpl := hf.placed h.placed ha hd hw
  obtain ⟨hget, _⟩ := hf.get h.wf fun j hj => h.links a j (Sys.mem_of_get ha) hj
  obtain ⟨l, hl, hpage, _⟩ := hf.evicted
  have htrace : (s.fetched d a t i).state.trace = l ++ s.state.trace := State.mark_trace.trans hl
  have hM : lastWrite (s.fetched d a t i).state.trace = lastWrite s.state.trace := by
    rw [htrace, lastWrite_append hpage]
  refine ⟨⟨hpl.pinned, hpl.wf, hpl.links, ?_, ?_⟩, ?_, l, htrace, hpage⟩
  · rw [hM]
    exact (hf.holds hG h.wf h.holds).mark
  · rw [htrace]
    exact h.coherent.append hpage
  · exact (congrArg (fun c => PageCache.get c a.target) State.mark_l1).trans hget

/-- 枠にあるページの一つのバイトを読む。 -/
theorem Sys.Good.noteRead {s : Sys} {o : Fin pageSize} (h : s.Good cfg G) (hg : s.state.l1.get p = some ⟨p, i⟩) :
    Sys.Good cfg G { s with state := { s.state with
      trace := .read (byteAddr p o) (s.state.epc (cfg.slot i + o)) :: s.state.trace } } := by
  have hh := h.holds
  refine ⟨⟨h.pinned.slots, h.pinned.store, h.pinned.bounded, h.pinned.count⟩, h.wf.withBytes, h.links,
    ⟨hh.entry_range, hh.decrypts, hh.clean, hh.clean_entry, hh.resident, hh.absent⟩, h.coherent.cons ?_⟩
  intro x v w he hv
  obtain ⟨rfl, rfl⟩ := Event.read.inj he
  have hbyte := hh.resident _ _ o w hg hv
  dsimp only at hbyte
  exact hbyte

/-- 枠にあって変更の印のあるページの一つのバイトを書く。 -/
theorem Sys.Good.noteWrite {s : Sys} {o : Fin pageSize} {v : UInt8} (h : s.Good cfg G)
    (hg : s.state.l1.get p = some ⟨p, i⟩) (ht : tagBit (s.state.epcArr i) = true) :
    Sys.Good cfg G { s with state := { s.state with
      epc := Function.update s.state.epc (cfg.slot i + o) v
      trace := .write (byteAddr p o) v :: s.state.trace } } := by
  refine ⟨⟨h.pinned.slots, h.pinned.store, h.pinned.bounded, h.pinned.count⟩, h.wf.withBytes, h.links, ?_,
    h.coherent.cons ?_⟩
  · rw [lastWrite_write]
    exact h.holds.write h.wf hg ht
  · rintro x v w ⟨⟩

theorem Move.good {s s' : Sys} (hG : G.Correct) (h : s.Good cfg G) (hw : s'.Within cfg)
    (hm : Move cfg G id s s') : s'.Good cfg G := by
  have hpl := hm.placed h.placed hw
  cases hm with
  | add hl hb => exact ⟨hpl.pinned, hpl.wf, hpl.links, h.holds, h.coherent⟩
  | edit ha hl hpg hbs => exact ⟨hpl.pinned, hpl.wf, hpl.links, h.holds, h.coherent⟩
  | release ha ho => exact ⟨hpl.pinned, hpl.wf, hpl.links, h.holds.withRefCount, h.coherent⟩
  | @access d a s₁ i w ha hd hhint hf =>
      have hw' : (s.fetched d a s₁ i).Within cfg := ⟨hw.links, hw.pages⟩
      obtain ⟨hgood, hget, _⟩ := hf.good hG h ha hd hw'
      cases w with
      | none =>
          have hr := hgood.noteRead (o := a.within) hget
          rw [← Aptr.addr_eq, ← slotAddr_eq] at hr
          exact hr
      | some v =>
          have htag : tagBit ((s.fetched d a s₁ i).state.epcArr i) = true := by
            simp [Sys.fetched, Sys.set, State.mark, hhint (by simp)]
          have hr := hgood.noteWrite (o := a.within) (v := v) hget htag
          rw [← Aptr.addr_eq, ← slotAddr_eq] at hr
          exact hr

/-! ## 前進 -/

theorem evict_progress {q : Int} (hG : G.Correct) (hw : s.Wf cfg) (hq : q ∈ s.l1.usedPages.toList)
    (hz : s.l1.refCount q = 0) : ∃ it c s', s.l1.getPageIndexToEvict = .ok (it, c) ∧
      tryEvictPage G { s with l1 := c } it = .ok s' := by
  obtain ⟨_, _, it, r, _, _, _, hget, hscan, _⟩ :=
    PageCache.select_first hw.ring (fun p hp => (hw.queued p).mp hp) hq hz
  obtain ⟨d, t, henc, _⟩ := hG s.evictionKey (s.rand s.randPos)
    (readPage s.epc (clearTag (s.epcArr it.epc)))
  cases ht : tagBit (s.epcArr it.epc) with
  | false => exact ⟨it, _, _, hscan, tryEvictPage_ok_iff.mpr ⟨⟨it, hget⟩, Or.inl ⟨ht, rfl⟩⟩⟩
  | true =>
      exact ⟨it, _, _, hscan, tryEvictPage_ok_iff.mpr
        ⟨⟨it, hget⟩, Or.inr ⟨ht, ⟨_, _, d, t⟩, ⟨rfl, rfl, henc⟩, rfl⟩⟩⟩

theorem makeRoom_progress (hG : G.Correct) (hw : s.Wf cfg)
    (hfree : cfg.cacheCapacity - maxNumOfThreadsOptimization ≤ s.l1.pageCacheSize →
      ∃ q ∈ s.l1.usedPages.toList, s.l1.refCount q = 0) : ∃ s', makeRoom cfg G s = .ok s' := by
  by_cases hfull : cfg.cacheCapacity - maxNumOfThreadsOptimization ≤ s.l1.pageCacheSize
  · obtain ⟨q, hq, hz⟩ := hfree hfull
    obtain ⟨it, c, s', hscan, hev⟩ := evict_progress hG hw hq hz
    exact ⟨s', makeRoom_ok_iff.mpr (Or.inr ⟨hfull, it, c, hscan, hev⟩)⟩
  · exact ⟨s, makeRoom_ok_iff.mpr (Or.inl ⟨by omega, rfl⟩)⟩

theorem loadPage_progress (hw : s.Wf cfg) (h : s.Holds cfg G M) (hg : s.l1.get p = none)
    (hroom : s.l1.pageCacheSize < cfg.cacheCapacity - maxNumOfThreadsOptimization) :
    ∃ s' i, loadPage G s p = .ok (s', i) := by
  have hfc := hw.free_count
  have hsz := hw.size
  have hu : ∃ e, s.Unseals G p e := by
    cases hy : s.llc.get p with
    | none => exact ⟨none, .absent hy⟩
    | some y =>
        obtain ⟨c, z, hz, hd⟩ := h.decrypts p y hy
        exact ⟨_, .present hz hd⟩
  obtain ⟨e, he⟩ := hu
  cases hf : s.freeEpcPages with
  | nil =>
      rw [hf, List.length_nil] at hfc
      omega
  | cons i rest =>
      refine ⟨_, i, (loadPage_ok_iff hg).mpr ⟨rest, e, hf, ?_, he, rfl⟩⟩
      rw [hw.ringSize, ← Ring.toList_length]
      omega

/-- 枠にあるすべてのページがつながっていることはない。 -/
theorem Sys.exists_unlinked {s : Sys} {d : Nat} (h : s.Good cfg G) (hw : s.Within cfg) (ha : s.get d = .ok a)
    (hg : s.state.l1.get a.target = none)
    (hfull : cfg.cacheCapacity - maxNumOfThreadsOptimization ≤ s.state.l1.pageCacheSize) :
    ∃ q ∈ s.state.l1.usedPages.toList, (s.state.relink a.linkedPage? a.target).l1.refCount q = 0 := by
  by_contra hall
  simp only [not_exists, not_and] at hall
  have hsub : s.state.l1.usedPages.toList ⊆ s.linked.dedup := by
    intro q hq
    have hz := hall q hq
    rw [relink_count (i := 0) h.pinned ha q] at hz
    have hpos : q ∈ (s.set d (some (a.linkTo 0))).linked := by
      apply List.count_pos_iff.mp
      rcases Nat.eq_zero_or_pos ((s.set d (some (a.linkTo 0))).linkedCount q) with h0 | h0
      · rw [h0] at hz
        exact absurd rfl hz
      · exact h0
    obtain ⟨o, ho, hq'⟩ := List.mem_filterMap.mp hpos
    rcases List.mem_or_eq_of_mem_set ho with ho | rfl
    · exact List.mem_dedup.mpr (List.mem_filterMap.mpr ⟨o, ho, hq'⟩)
    · rw [Option.bind_some, Aptr.linkTo_linkedPage?, Option.some.injEq] at hq'
      obtain ⟨it, hit⟩ := (h.wf.queued q).mp hq
      rw [← hq', hg] at hit
      cases hit
  have hlen := (List.subperm_of_subset h.wf.queueNodup hsub).length_le
  have hpages := hw.pages
  have hsz := h.wf.size
  omega

theorem fetch_progress {s : Sys} {d : Nat} (hG : G.Correct) (h : s.Good cfg G) (hw : s.Within cfg)
    (ha : s.get d = .ok a) (hd : a.Derefable cfg) : ∃ t i, Fetch cfg G id s.state a t i := by
  cases hv : isValid a.offset with
  | true =>
      cases hl : a.prmPtr with
      | none => simp [hd.biased hl] at hv
      | some i => exact ⟨_, i, .hit hv hl⟩
  | false =>
      cases hg : s.state.l1.get a.target with
      | some it => exact ⟨_, _, .minor hv hg⟩
      | none =>
          have hwf : (s.state.relink a.linkedPage? a.target).Wf cfg := h.wf.withRefCount
          obtain ⟨s₁, hm⟩ := makeRoom_progress hG hwf (Sys.exists_unlinked h hw ha hg)
          have hr := makeRoom_room hwf hm
          obtain ⟨s₂, i, hl⟩ := loadPage_progress (hr.wf hwf) (hr.holds hG hwf h.holds.withRefCount)
            (makeRoom_get_none hm hg) (hr.size_lt hwf)
          exact ⟨s₂, i, .major hv hg hm hl⟩

theorem deref_progress {s : Sys} {d : Nat} (hG : G.Correct) (h : s.Good cfg G) (hw : s.Within cfg)
    (ha : s.get d = .ok a) (hd : a.Derefable cfg) : ∃ r, deref cfg G id s.state a = .ok r := by
  obtain ⟨t, i, hf⟩ := fetch_progress hG h hw ha hd
  exact ⟨_, (h.pinned.deref_ok_iff ha hd).mpr ⟨t, i, hf, rfl, rfl, rfl⟩⟩

theorem Sys.get_set_live {s : Sys} {d e : Nat} {b x : Aptr} (ha : s.get d = .ok a) (hb : s.get e = .ok b) :
    ∃ c, (s.set d (some x)).get e = .ok c := by
  rw [Sys.get_ok_iff] at ha hb
  by_cases hde : d = e
  · subst hde
    have hlt := (List.getElem?_eq_some_iff.mp ha).1
    exact ⟨x, Sys.get_ok_iff.mpr (by simp [Sys.set, hlt])⟩
  · refine ⟨b, Sys.get_ok_iff.mpr ?_⟩
    rw [← hb]
    exact List.getElem?_set_ne hde

theorem step_progress {s : Sys} {op : Op} (hG : G.Correct) (h : s.Good cfg G) (hw : s.Within cfg)
    (hg : Guard cfg s op) : ∃ s', s.step cfg G id op = .ok s' := by
  cases op with
  | construct x n =>
      have hpool : (cfg.poolPages : Int) ≤ 524288 := by exact_mod_cast cfg.poolPages_le
      have hq : x / pageSize < cfg.poolPages := Int.ediv_lt_of_lt_mul (by simp [pageSize]) hg.2
      have hq0 : 0 ≤ x / pageSize := Int.ediv_nonneg hg.1 (by simp [pageSize])
      have hbase : 0 ≤ int32 (x / pageSize) := by
        rw [int32_of_range (by omega) (by omega)]
        exact hq0
      exact ⟨_, bind_ok_iff.mpr ⟨_, by rw [Aptr.construct, if_pos hbase], rfl⟩⟩
  | null junk => exact ⟨_, rfl⟩
  | copy src =>
      obtain ⟨a, ha⟩ := hg
      exact ⟨_, bind_ok_iff.mpr ⟨a, ha, rfl⟩⟩
  | assign dst src =>
      obtain ⟨⟨a, ha⟩, b, hb⟩ := hg
      obtain ⟨c, hc⟩ := Sys.get_set_live (s := { s with state := s.state.unlink a.linkedPage? })
        (x := { a with basePageIndex := -1, prmPtr := none }) ha hb
      exact ⟨_, bind_ok_iff.mpr ⟨a, ha, bind_ok_iff.mpr ⟨_, h.pinned.reset_eq ha, bind_ok_iff.mpr ⟨c, hc, rfl⟩⟩⟩⟩
  | move d n k =>
      obtain ⟨a, ha⟩ := hg
      exact ⟨_, bind_ok_iff.mpr ⟨a, ha, rfl⟩⟩
  | hint d b =>
      obtain ⟨a, ha⟩ := hg
      exact ⟨_, bind_ok_iff.mpr ⟨a, ha, rfl⟩⟩
  | read d =>
      obtain ⟨a, ha, hd⟩ := hg
      obtain ⟨r, hr⟩ := deref_progress hG h hw ha hd
      exact ⟨_, bind_ok_iff.mpr ⟨a, ha, bind_ok_iff.mpr ⟨r, hr, rfl⟩⟩⟩
  | write d v =>
      obtain ⟨a, ha, hd, _⟩ := hg
      obtain ⟨r, hr⟩ := deref_progress hG h hw ha hd
      exact ⟨_, bind_ok_iff.mpr ⟨a, ha, bind_ok_iff.mpr ⟨r, hr, rfl⟩⟩⟩
  | reset d =>
      obtain ⟨a, ha⟩ := hg
      exact ⟨_, bind_ok_iff.mpr ⟨a, ha, bind_ok_iff.mpr ⟨_, h.pinned.reset_eq ha, rfl⟩⟩⟩
  | destroy d =>
      obtain ⟨a, ha⟩ := hg
      exact ⟨_, bind_ok_iff.mpr ⟨a, ha, bind_ok_iff.mpr ⟨_, h.pinned.reset_eq ha, rfl⟩⟩⟩

theorem Admissible.within {s : Sys} {ops : List Op} (h : Admissible cfg G s ops) : s.Within cfg := by
  cases ops with
  | nil => exact h
  | cons op ops => exact h.1

/-- 使い方の条件を満たす操作の列は最後まで進み、不変条件を保つ。 -/
theorem Sys.Good.run {s : Sys} {ops : List Op} (hG : G.Correct) (h : s.Good cfg G)
    (hops : Admissible cfg G s ops) : ∃ s', s.run cfg G ops = .ok s' ∧ s'.Good cfg G := by
  induction ops generalizing s with
  | nil => exact ⟨s, rfl, h⟩
  | cons op ops ih =>
      obtain ⟨hw, hg, hnext⟩ := hops
      obtain ⟨s₁, hstep⟩ := step_progress hG h hw hg
      have hops' := hnext s₁ hstep
      have hgood := (step_move h.pinned hg hstep).good hG h hops'.within
      obtain ⟨s', hrun, hs'⟩ := ih hgood hops'
      exact ⟨s', bind_ok_iff.mpr ⟨s₁, hstep, hrun⟩, hs'⟩

end Eleos.Pager
