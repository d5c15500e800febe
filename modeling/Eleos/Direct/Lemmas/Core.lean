import Eleos.Direct.Lemmas.Cache
import Eleos.Pager.Lemmas.Coherence

/-!
# 部分ページの中身

つながりの多重集合 `L` と書き込んだ値の表 `M` に対して、部分ページの中身がどこにあるかを述べる。
表にあるページにはつながりがあり、つながりの指す部分ページは有効である。書き込みのある部分ページは、書き込んだ `Aptr` が
つながったままであるか、復号した内容が `M` に合う。
-/

namespace Eleos.Direct

open Eleos.Pager (Config Nonce Tag Event pageSize)

variable {cfg : Config} {G : Gcm} {s : State} {p q : Int} {i j k : Nat} {it jt : Item}
  {M : Int → Option UInt8} {o o' : Fin subPageSize}

/-! ## 番地 -/

/-- ページ `p` の部分ページ `k` の `o` 番目のバイトの番地。 -/
def cellAddr (p : Int) (k : Nat) (o : Fin subPageSize) : Int := p * pageSize + k * subPageSize + o

theorem cellAddr_inj (hk : k < subPageCount) (hj : j < subPageCount) (h : cellAddr p k o = cellAddr q j o') :
    p = q ∧ k = j ∧ o = o' := by
  have h₁ := o.isLt
  have h₂ := o'.isLt
  simp only [cellAddr, pageSize, subPageSize, subPageCount] at *
  exact ⟨by omega, by omega, Fin.ext (by omega)⟩

theorem epcAddr_apart (hk : k < subPageCount) (hj : j < subPageCount) {i' : Nat} (h : ¬ (i = i' ∧ k = j)) :
    epcAddr cfg i k + subPageSize ≤ epcAddr cfg i' j ∨ epcAddr cfg i' j + subPageSize ≤ epcAddr cfg i k := by
  by_cases hi : i = i'
  · subst hi
    have hkj : k ≠ j := fun he => h ⟨rfl, he⟩
    simp only [epcAddr, subPageSize]
    omega
  · have := cfg.slot_apart hi
    simp only [epcAddr, subPageSize, subPageCount, pageSize] at *
    omega

theorem ramAddr_apart (hp : 0 ≤ p ∧ p < cfg.poolPages) (hq : 0 ≤ q ∧ q < cfg.poolPages) (hk : k < subPageCount)
    (hj : j < subPageCount) (h : ¬ (p = q ∧ k = j)) :
    ramAddr p k + subPageSize ≤ ramAddr q j ∨ ramAddr q j + subPageSize ≤ ramAddr p k := by
  by_cases hpq : p = q
  · subst hpq
    have hkj : k ≠ j := fun he => h ⟨rfl, he⟩
    simp only [ramAddr, subPageSize]
    omega
  · have := Pager.ramPage_apart hp hq hpq
    simp only [ramAddr, subPageSize, subPageCount, pageSize] at *
    omega

/-! ## 中身の不変条件 -/

/-- `Aptr` のつながり。`wrote` は、つながってから書き込んだことを表す。 -/
structure Link where
  page : Int
  slot : Nat
  sub : Nat
  wrote : Bool

variable {l : Link} {L R : Multiset Link}

/-- 部分ページの内容 `c` は、書き込んだ値に合う。 -/
def Agrees (M : Int → Option UInt8) (p : Int) (k : Nat) (c : SubPage) : Prop :=
  ∀ o v, M (cellAddr p k o) = some v → c o = v

/-- `CryptoCache` の項目によって、プールの部分ページは `c` に復号される。 -/
def State.Backed (G : Gcm) (s : State) (p : Int) (k : Nat) (c : SubPage) : Prop :=
  ∃ e, s.llc.entry p k = some e ∧
    G.decrypt s.evictionKey e.1 (readSpan subPageSize s.pool (ramAddr p k)) e.2 = some c

theorem State.Backed.unique {c d : SubPage} (h : s.Backed G p k c) (h' : s.Backed G p k d) : c = d := by
  obtain ⟨e, he, hc⟩ := h
  obtain ⟨e', he', hd⟩ := h'
  cases he.symm.trans he'
  cases hc.symm.trans hd
  rfl

/-- つながり `l` は、表にあるページの有効な部分ページを指す。 -/
structure Link.Fits (cfg : Config) (s : State) (l : Link) : Prop where
  range : 0 ≤ l.page ∧ l.page < cfg.poolPages
  sub_lt : l.sub < subPageCount
  resident : ∃ it, s.l1.get l.page = some it ∧ it.epc = l.slot ∧ it.isValid l.sub = true

theorem Link.Fits.congr {t : State} (h : l.Fits cfg s) (ht : t.l1 = s.l1) : l.Fits cfg t :=
  ⟨h.range, h.sub_lt, ht ▸ h.resident⟩

/-- 書き込みの印だけを変えた、つながりの多重集合。 -/
theorem fits_mark {t : State} {b : Bool} (h : ∀ l' ∈ l ::ₘ R, l'.Fits cfg s) (ht : t.l1 = s.l1) :
    ∀ l' ∈ { l with wrote := b } ::ₘ R, l'.Fits cfg t := by
  intro l' hl'
  rcases Multiset.mem_cons.mp hl' with rfl | hl'
  · have hl := (h l (Multiset.mem_cons_self l R)).congr ht
    exact ⟨hl.range, hl.sub_lt, hl.resident⟩
  · exact (h l' (Multiset.mem_cons_of_mem hl')).congr ht

theorem cached_mark {b : Bool} (h : ∃ l' ∈ l ::ₘ R, l'.page = p) : ∃ l' ∈ { l with wrote := b } ::ₘ R, l'.page = p := by
  obtain ⟨l', hl', hpage⟩ := h
  rcases Multiset.mem_cons.mp hl' with rfl | hl'
  · exact ⟨_, Multiset.mem_cons_self _ R, hpage⟩
  · exact ⟨l', Multiset.mem_cons_of_mem hl', hpage⟩

theorem exists_mem_cons {Q : Link → Prop} (h : ∃ l' ∈ R, Q l') : ∃ l' ∈ l ::ₘ R, Q l' := by
  obtain ⟨l', hl', hq⟩ := h
  exact ⟨l', Multiset.mem_cons_of_mem hl', hq⟩

/-- `l` のものでない書き込みは、残りのつながりのものである。 -/
theorem wrote_of_cons (hne : ¬ (p = l.page ∧ k = l.sub) ∨ l.wrote = false)
    (h : ∃ l' ∈ l ::ₘ R, l'.page = p ∧ l'.sub = k ∧ l'.wrote = true) :
    ∃ l' ∈ R, l'.page = p ∧ l'.sub = k ∧ l'.wrote = true := by
  obtain ⟨l', hl', hpage, hsub, hw⟩ := h
  rcases Multiset.mem_cons.mp hl' with rfl | hl'
  · rcases hne with hne | hne
    · exact absurd ⟨hpage.symm, hsub.symm⟩ hne
    · cases hne.symm.trans hw
  · exact ⟨l', hl', hpage, hsub, hw⟩

structure State.Core (cfg : Config) (G : Gcm) (M : Int → Option UInt8) (L : Multiset Link) (s : State) : Prop where
  table : s.l1.table.Wf Item.pageIndex
  store : s.l1.backingStoreSize = cfg.poolPages
  -- 枠は、空きの並びと表の項目に一度ずつ現れる。
  slots : (s.freeEpcPages : Multiset Nat) + s.l1.table.items.map Item.epc = Multiset.range cfg.cacheCapacity
  size : s.l1.pageCacheSize = s.l1.table.items.card
  fits : ∀ l ∈ L, l.Fits cfg s
  cached : ∀ p it, s.l1.get p = some it → ∃ l ∈ L, l.page = p
  valid : ∀ p it k, s.l1.get p = some it → it.isValid k = true → k < subPageCount →
    Agrees M p k (readSpan subPageSize s.epc (epcAddr cfg it.epc k))
  entry_range : ∀ p k e, s.llc.entry p k = some e → 0 ≤ p ∧ p < cfg.poolPages
  decrypts : ∀ p k e, k < subPageCount → s.llc.entry p k = some e → ∃ c, s.Backed G p k c
  backed : ∀ p k, k < subPageCount → (∃ l ∈ L, l.page = p ∧ l.sub = k ∧ l.wrote = true) ∨
    (∃ c, s.Backed G p k c ∧ Agrees M p k c) ∨ ∀ o, M (cellAddr p k o) = none

/-- 参照の数は、ページのつながりの個数である。 -/
def Counts (r : Int → UInt8) (P : Multiset Int) : Prop := ∀ p, r p = UInt8.ofNat (P.count p)

namespace State.Core

theorem epc_inj (h : s.Core cfg G M L) (hp : s.l1.get p = some it) (hq : s.l1.get q = some jt)
    (he : it.epc = jt.epc) : p = q := by
  have hnd : ((s.freeEpcPages : Multiset Nat) + s.l1.table.items.map Item.epc).Nodup := by
    rw [h.slots]
    exact Multiset.nodup_range _
  have hpk := PageCache.pageIndex_of_get hp
  have hqk := PageCache.pageIndex_of_get hq
  have hit : it ∈ s.l1.table.items := (Table.mem_items_iff h.table).mpr (by rw [hpk]; exact hp)
  have hjt : jt ∈ s.l1.table.items := (Table.mem_items_iff h.table).mpr (by rw [hqk]; exact hq)
  rw [← hpk, ← hqk, Multiset.inj_on_of_nodup_map (Multiset.nodup_add.mp hnd).2.1 it hit jt hjt he]

theorem free_ne (h : s.Core cfg G M L) (hi : i ∈ s.freeEpcPages) (hp : s.l1.get p = some it) : i ≠ it.epc := by
  have hnd : ((s.freeEpcPages : Multiset Nat) + s.l1.table.items.map Item.epc).Nodup := by
    rw [h.slots]
    exact Multiset.nodup_range _
  have hpk := PageCache.pageIndex_of_get hp
  have hit : it ∈ s.l1.table.items := (Table.mem_items_iff h.table).mpr (by rw [hpk]; exact hp)
  rintro rfl
  exact Multiset.disjoint_left.mp (Multiset.nodup_add.mp hnd).2.2 (Multiset.mem_coe.mpr hi)
    (Multiset.mem_map_of_mem Item.epc hit)

theorem withRefCount {r : Int → UInt8} (h : s.Core cfg G M L) :
    State.Core cfg G M L { s with l1 := { s.l1 with refCount := r } } :=
  ⟨h.table, h.store, h.slots, h.size, fun l hl => ⟨(h.fits l hl).range, (h.fits l hl).sub_lt, (h.fits l hl).resident⟩,
    h.cached, h.valid, h.entry_range, h.decrypts, h.backed⟩

end State.Core

/-! ## 部分ページを離れる -/

/-- 部分ページ `k` を暗号文 `c` とノンスとタグ `e` で書き出した状態。 -/
def State.writeBack (s : State) (p : Int) (k : Nat) (c : SubPage) (e : Nonce × Tag) : State :=
  { s with
    llc := (s.llc.add p).write p k e.1 e.2
    randPos := s.randPos + 1
    pool := writeSpan s.pool (ramAddr p k) c }

theorem State.Backed.writeBack_self {c d : SubPage} {e : Nonce × Tag}
    (hd : G.decrypt s.evictionKey e.1 c e.2 = some d) : (s.writeBack p k c e).Backed G p k d := by
  refine ⟨e, ?_, ?_⟩
  · exact (CryptoCache.entry_write p k).trans (if_pos ⟨rfl, rfl⟩)
  · simp only [State.writeBack, readSpan_writeSpan_self]
    exact hd

theorem State.Backed.writeBack_ne {c d : SubPage} {e : Nonce × Tag} (hp : 0 ≤ p ∧ p < cfg.poolPages)
    (hq : 0 ≤ q ∧ q < cfg.poolPages) (hk : k < subPageCount) (hj : j < subPageCount) (hne : ¬ (q = p ∧ j = k))
    (h : s.Backed G q j d) : (s.writeBack p k c e).Backed G q j d := by
  obtain ⟨e', he', hd⟩ := h
  refine ⟨e', ?_, ?_⟩
  · exact (CryptoCache.entry_write q j).trans ((if_neg hne).trans he')
  · simp only [State.writeBack]
    rw [readSpan_writeSpan_of_apart (ramAddr_apart hq hp hj hk hne)]
    exact hd

/-- 書き出しのあとでは、つながり `l` の書き込みは復号した内容に現れる。 -/
theorem State.Core.writeBack {c : SubPage} {e : Nonce × Tag} (h : s.Core cfg G M (l ::ₘ R))
    (hd : G.decrypt s.evictionKey e.1 c e.2 = some (readSpan subPageSize s.epc (epcAddr cfg l.slot l.sub))) :
    (s.writeBack l.page l.sub c e).Core cfg G M ({ l with wrote := false } ::ₘ R) := by
  have hl := h.fits l (Multiset.mem_cons_self l R)
  have hself := State.Backed.writeBack_self (p := l.page) (k := l.sub) hd
  have hagree : Agrees M l.page l.sub (readSpan subPageSize s.epc (epcAddr cfg l.slot l.sub)) := by
    obtain ⟨it, hit, hslot, hv⟩ := hl.resident
    rw [← hslot]
    exact h.valid l.page it l.sub hit hv hl.sub_lt
  have hentry {q : Int} {j : Nat} (hne : ¬ (q = l.page ∧ j = l.sub)) :
      (s.writeBack l.page l.sub c e).llc.entry q j = s.llc.entry q j :=
    (CryptoCache.entry_write q j).trans (if_neg hne)
  have hkeep {q : Int} {j : Nat} {d : SubPage} (hj : j < subPageCount) (hne : ¬ (q = l.page ∧ j = l.sub))
      (hb : s.Backed G q j d) : (s.writeBack l.page l.sub c e).Backed G q j d := by
    have hb' := hb
    obtain ⟨e', he', _⟩ := hb'
    exact State.Backed.writeBack_ne hl.range (h.entry_range q j e' he') hl.sub_lt hj hne hb
  refine ⟨h.table, h.store, h.slots, h.size, fits_mark h.fits rfl, fun q it hq => cached_mark (h.cached q it hq), h.valid,
    ?_, ?_, ?_⟩
  · intro q j e' he'
    by_cases hq : q = l.page ∧ j = l.sub
    · rw [hq.1]
      exact hl.range
    · exact h.entry_range q j e' ((hentry hq).symm.trans he')
  · intro q j e' hj he'
    by_cases hq : q = l.page ∧ j = l.sub
    · obtain ⟨rfl, rfl⟩ := hq
      exact ⟨_, hself⟩
    · obtain ⟨d, hb⟩ := h.decrypts q j e' hj ((hentry hq).symm.trans he')
      exact ⟨d, hkeep hj hq hb⟩
  · intro q j hj
    by_cases hq : q = l.page ∧ j = l.sub
    · obtain ⟨rfl, rfl⟩ := hq
      exact Or.inr (Or.inl ⟨_, hself, hagree⟩)
    · rcases h.backed q j hj with hw | ⟨d, hb, ha⟩ | hblank
      · exact Or.inl (exists_mem_cons (wrote_of_cons (Or.inl hq) hw))
      · exact Or.inr (Or.inl ⟨d, hkeep hj hq hb, ha⟩)
      · exact Or.inr (Or.inr hblank)

theorem sealSubPage_core (hG : G.Correct) (h : s.Core cfg G M (l ::ₘ R)) :
    ∃ c e, sealSubPage G s l.page l.sub (epcAddr cfg l.slot l.sub) = .ok (s.writeBack l.page l.sub c e) ∧
      (s.writeBack l.page l.sub c e).Core cfg G M ({ l with wrote := false } ::ₘ R) := by
  obtain ⟨c, t, henc, hdec⟩ := hG s.evictionKey (s.rand s.randPos)
    (readSpan subPageSize s.epc (epcAddr cfg l.slot l.sub))
  refine ⟨c, (s.rand s.randPos, t), ?_, h.writeBack hdec⟩
  simp [sealSubPage, henc, State.writeBack]

/-- 書き込みの残っていない最後のつながりが離れ、ページを表から外した状態。 -/
theorem State.Core.drop (h : s.Core cfg G M (l ::ₘ R)) (hw : l.wrote = false) (hlast : ∀ l' ∈ R, l'.page ≠ l.page) :
    State.Core cfg G M R { s with l1 := s.l1.drop l.page, freeEpcPages := l.slot :: s.freeEpcPages } := by
  have hget {q : Int} := PageCache.get_drop (p := l.page) h.table q
  obtain ⟨it, hit, hslot, _⟩ := (h.fits l (Multiset.mem_cons_self l R)).resident
  have hitems : s.l1.table.items = it ::ₘ (s.l1.table.remove Item.pageIndex l.page).items :=
    Table.items_remove h.table hit
  have hmem {q : Int} {jt : Item} (hq : (s.l1.drop l.page).get q = some jt) :
      q ≠ l.page ∧ s.l1.get q = some jt := by
    rw [hget] at hq
    split at hq
    · cases hq
    · exact ⟨by assumption, hq⟩
  refine ⟨h.table.remove, h.store, ?_, ?_, ?_, ?_, ?_, h.entry_range, h.decrypts, ?_⟩
  · have hs := h.slots
    rw [hitems, Multiset.map_cons, hslot, Multiset.add_cons] at hs
    rw [← hs, ← Multiset.cons_coe, Multiset.cons_add]
    rfl
  · have hsize := h.size
    rw [hitems, Multiset.card_cons] at hsize
    show s.l1.pageCacheSize - 1 = (s.l1.table.remove Item.pageIndex l.page).items.card
    omega
  · intro l' hl'
    have hf := h.fits l' (Multiset.mem_cons_of_mem hl')
    refine ⟨hf.range, hf.sub_lt, ?_⟩
    obtain ⟨jt, hjt, hrest⟩ := hf.resident
    exact ⟨jt, by rw [hget, if_neg (hlast l' hl')]; exact hjt, hrest⟩
  · intro q jt hq
    obtain ⟨hne, hq⟩ := hmem hq
    obtain ⟨l', hl', hpage⟩ := h.cached q jt hq
    rcases Multiset.mem_cons.mp hl' with rfl | hl'
    · exact absurd hpage.symm hne
    · exact ⟨l', hl', hpage⟩
  · intro q jt j hq
    exact h.valid q jt j (hmem hq).2
  · exact fun q j hj => (h.backed q j hj).imp_left (wrote_of_cons (Or.inr hw))

/-- 書き込みの残っていないつながりが離れ、同じページにほかのつながりが残る。 -/
theorem State.Core.stay (h : s.Core cfg G M (l ::ₘ R)) (hw : l.wrote = false) (hmore : ∃ l' ∈ R, l'.page = l.page) :
    s.Core cfg G M R := by
  refine ⟨h.table, h.store, h.slots, h.size, fun l' hl' => h.fits l' (Multiset.mem_cons_of_mem hl'), ?_, h.valid,
    h.entry_range, h.decrypts, ?_⟩
  · intro q jt hq
    obtain ⟨l', hl', hpage⟩ := h.cached q jt hq
    rcases Multiset.mem_cons.mp hl' with rfl | hl'
    · rw [← hpage]
      exact hmore
    · exact ⟨l', hl', hpage⟩
  · exact fun q j hj => (h.backed q j hj).imp_left (wrote_of_cons (Or.inr hw))

/-! ## 部分ページにつながる -/

theorem State.Core.join (h : s.Core cfg G M R) (hl : l.Fits cfg s) (hw : l.wrote = false) :
    s.Core cfg G M (l ::ₘ R) := by
  refine ⟨h.table, h.store, h.slots, h.size, ?_, ?_, h.valid, h.entry_range, h.decrypts, ?_⟩
  · intro l' hl'
    rcases Multiset.mem_cons.mp hl' with rfl | hl'
    · exact hl
    · exact h.fits l' hl'
  · exact fun q it hq => exists_mem_cons (h.cached q it hq)
  · exact fun q j hj => (h.backed q j hj).imp_left exists_mem_cons

/-- 枠 `i` の部分ページ `k` だけに読み込んだあとのメモリ `e`。 -/
structure Loaded (cfg : Config) (M : Int → Option UInt8) (m : Nat → UInt8) (p : Int) (k i : Nat)
    (e : Nat → UInt8) : Prop where
  agrees : Agrees M p k (readSpan subPageSize e (epcAddr cfg i k))
  apart : ∀ j k', k' < subPageCount → j ≠ i →
    readSpan subPageSize e (epcAddr cfg j k') = readSpan subPageSize m (epcAddr cfg j k')

/-- 表にあって有効でない部分ページへの書き込みは、どれも復号した内容にある。 -/
theorem State.Core.settled (h : s.Core cfg G M R) (hk : k < subPageCount)
    (hmiss : ∀ it, s.l1.get p = some it → it.isValid k = false) :
    (∃ c, s.Backed G p k c ∧ Agrees M p k c) ∨ ∀ o, M (cellAddr p k o) = none := by
  rcases h.backed p k hk with ⟨l, hl, rfl, rfl, _⟩ | hrest
  · obtain ⟨it, hit, _, hv⟩ := (h.fits l hl).resident
    cases (hmiss it hit).symm.trans hv
  · exact hrest

theorem fillSubPage_core (h : s.Core cfg G M R) (hk : k < subPageCount)
    (hmiss : ∀ it, s.l1.get p = some it → it.isValid k = false) (rest : List Nat) (i : Nat) :
    ∃ e, fillSubPage cfg G { s with freeEpcPages := rest } p k i =
      .ok { s with freeEpcPages := rest, epc := e } ∧ Loaded cfg M s.epc p k i e := by
  have hset := h.settled hk hmiss
  cases hentry : s.llc.entry p k with
  | none =>
      -- 初期化されていない部分ページには、まだ書き込みがない。
      have hblank : ∀ o, M (cellAddr p k o) = none := by
        rcases hset with ⟨c, ⟨e, he, _⟩, _⟩ | hblank
        · cases hentry.symm.trans he
        · exact hblank
      refine ⟨s.epc, ?_, ?_, fun _ _ _ _ => rfl⟩
      · unfold CryptoCache.entry at hentry
        unfold fillSubPage
        cases hy : s.llc.get p with
        | none => simp
        | some y =>
            cases hi : y.isInitialized k with
            | false => simp [hi]
            | true => simp [hy, hi] at hentry
      · intro o v hv
        rw [hblank o] at hv
        cases hv
  | some e =>
      obtain ⟨c, hb⟩ := h.decrypts p k e hk hentry
      have hagree : Agrees M p k c := by
        rcases hset with ⟨d, hd, ha⟩ | hblank
        · rw [hb.unique hd]
          exact ha
        · intro o v hv
          rw [hblank o] at hv
          cases hv
      refine ⟨writeSpan s.epc (epcAddr cfg i k) c, ?_, ?_, ?_⟩
      · obtain ⟨e', he', hdec⟩ := hb
        unfold CryptoCache.entry at he'
        unfold fillSubPage
        cases hy : s.llc.get p with
        | none => simp [hy] at he'
        | some y =>
            cases hi : y.isInitialized k with
            | false => simp [hy, hi] at he'
            | true =>
                simp only [hy, Option.bind_some, hi, ↓reduceIte, Option.some.injEq] at he'
                subst he'
                simp [hi, hdec]
      · rw [readSpan_writeSpan_self]
        exact hagree
      · intro j k' hk' hj
        exact readSpan_writeSpan_of_apart (epcAddr_apart hk' hk fun he => hj he.1)

/-- 表にないページを、枠 `i` に読み込んで加える。 -/
theorem State.Core.install {rest : List Nat} {e : Nat → UInt8} (h : s.Core cfg G M R)
    (hp : 0 ≤ p ∧ p < cfg.poolPages) (hk : k < subPageCount) (hn : s.l1.get p = none)
    (hf : s.freeEpcPages = i :: rest) (he : Loaded cfg M s.epc p k i e) :
    State.Core cfg G M (⟨p, i, k, false⟩ ::ₘ R)
      { s with freeEpcPages := rest, epc := e, l1 := s.l1.put ⟨p, i, fun j => j = k⟩ } := by
  have hget {q : Int} : (s.l1.put ⟨p, i, fun j => j = k⟩).get q =
      if q = p then some ⟨p, i, fun j => j = k⟩ else s.l1.get q := PageCache.get_put hn q
  have hitems : (s.l1.put ⟨p, i, fun j => j = k⟩).table.items = ⟨p, i, fun j => j = k⟩ ::ₘ s.l1.table.items :=
    Table.items_append h.table
  have hi : i ∈ s.freeEpcPages := by
    rw [hf]
    exact List.mem_cons_self
  refine ⟨h.table.append hn, h.store, ?_, ?_, ?_, ?_, ?_, h.entry_range, h.decrypts, ?_⟩
  · have hs := h.slots
    rw [hf, ← Multiset.cons_coe, Multiset.cons_add] at hs
    rw [hitems, Multiset.map_cons, Multiset.add_cons]
    exact hs
  · rw [hitems, Multiset.card_cons, ← h.size]
    rfl
  · intro l' hl'
    rcases Multiset.mem_cons.mp hl' with rfl | hl'
    · exact ⟨hp, hk, _, hget.trans (if_pos rfl), rfl, by simp⟩
    · have hfit := h.fits l' hl'
      refine ⟨hfit.range, hfit.sub_lt, ?_⟩
      obtain ⟨jt, hjt, hrest⟩ := hfit.resident
      have hne : l'.page ≠ p := by
        rintro rfl
        cases hn.symm.trans hjt
      exact ⟨jt, hget.trans ((if_neg hne).trans hjt), hrest⟩
  · intro q jt hq
    by_cases hqp : q = p
    · exact ⟨_, Multiset.mem_cons_self _ R, hqp.symm⟩
    · exact exists_mem_cons (h.cached q jt ((hget.trans (if_neg hqp)).symm.trans hq))
  · intro q jt j hq hv hj
    by_cases hqp : q = p
    · subst hqp
      cases (hget.trans (if_pos rfl)).symm.trans hq
      obtain rfl : j = k := by simpa using hv
      exact he.agrees
    · have hq' := (hget.trans (if_neg hqp)).symm.trans hq
      dsimp only
      rw [he.apart jt.epc j hj (h.free_ne hi hq').symm]
      exact h.valid q jt j hq' hv hj
  · exact fun q j hj => (h.backed q j hj).imp_left exists_mem_cons

/-- 表にあるページの枠に、枠 `i` に読み込んだ部分ページを写す。 -/
theorem State.Core.merge {e : Nat → UInt8} (h : s.Core cfg G M R) (hp : 0 ≤ p ∧ p < cfg.poolPages)
    (hk : k < subPageCount) (hit : s.l1.get p = some it) (hv : it.isValid k = false) (hi : i ∈ s.freeEpcPages)
    (he : Loaded cfg M s.epc p k i e) :
    State.Core cfg G M (⟨p, it.epc, k, false⟩ ::ₘ R)
      { s with
        epc := writeSpan e (epcAddr cfg it.epc k) (readSpan subPageSize e (epcAddr cfg i k))
        l1 := s.l1.setValid p k } := by
  have hget {q : Int} := PageCache.get_setValid (k := k) hit q
  have hitems : (s.l1.setValid p k).table.items.map Item.epc = s.l1.table.items.map Item.epc :=
    Table.items_modify_map fun _ => rfl
  have hcard := congrArg Multiset.card hitems
  rw [Multiset.card_map, Multiset.card_map] at hcard
  refine ⟨Table.Wf.modify (fun _ => rfl) h.table, h.store, ?_, ?_, ?_, ?_, ?_, h.entry_range, h.decrypts, ?_⟩
  · rw [hitems]
    exact h.slots
  · exact h.size.trans hcard.symm
  · intro l' hl'
    rcases Multiset.mem_cons.mp hl' with rfl | hl'
    · exact ⟨hp, hk, it.mark k, hget.trans (if_pos rfl), rfl, by simp [Item.mark]⟩
    · have hfit := h.fits l' hl'
      refine ⟨hfit.range, hfit.sub_lt, ?_⟩
      obtain ⟨jt, hjt, hslot, hvalid⟩ := hfit.resident
      by_cases hq : l'.page = p
      · rw [hq] at hjt
        cases hit.symm.trans hjt
        refine ⟨it.mark k, hget.trans (if_pos hq), hslot, ?_⟩
        by_cases hj : l'.sub = k
        · simp [Item.mark, hj]
        · simp [Item.mark, hj, hvalid]
      · exact ⟨jt, hget.trans ((if_neg hq).trans hjt), hslot, hvalid⟩
  · intro q jt hq
    by_cases hqp : q = p
    · exact ⟨_, Multiset.mem_cons_self _ R, hqp.symm⟩
    · exact exists_mem_cons (h.cached q jt ((hget.trans (if_neg hqp)).symm.trans hq))
  · intro q jt j hq hvalid hj
    dsimp only
    by_cases hqp : q = p
    · subst hqp
      cases (hget.trans (if_pos rfl)).symm.trans hq
      by_cases hjk : j = k
      · subst hjk
        rw [show (it.mark j).epc = it.epc from rfl, readSpan_writeSpan_self]
        exact he.agrees
      · have hvj : it.isValid j = true := by simpa [Item.mark, hjk] using hvalid
        rw [show (it.mark k).epc = it.epc from rfl,
          readSpan_writeSpan_of_apart (epcAddr_apart hj hk fun hx => hjk hx.2),
          he.apart it.epc j hj (h.free_ne hi hit).symm]
        exact h.valid q it j hit hvj hj
    · have hq' := (hget.trans (if_neg hqp)).symm.trans hq
      have hne : jt.epc ≠ it.epc := fun hx => hqp (h.epc_inj hq' hit hx)
      rw [readSpan_writeSpan_of_apart (epcAddr_apart hj hk fun hx => hne hx.1),
        he.apart jt.epc j hj (h.free_ne hi hq').symm]
      exact h.valid q jt j hq' hvalid hj
  · exact fun q j hj => (h.backed q j hj).imp_left exists_mem_cons

/-! ## 書き込み -/

/-- つながった部分ページへの書き込み。 -/
theorem State.Core.write {v : UInt8} {tr : List Event} (h : s.Core cfg G M (l ::ₘ R)) (o : Fin subPageSize) :
    State.Core cfg G (Function.update M (cellAddr l.page l.sub o) (some v)) ({ l with wrote := true } ::ₘ R)
      { s with epc := Function.update s.epc (epcAddr cfg l.slot l.sub + o) v, trace := tr } := by
  have hl := h.fits l (Multiset.mem_cons_self l R)
  obtain ⟨it, hit, hslot, hvl⟩ := hl.resident
  have hM {q : Int} {j : Nat} {o' : Fin subPageSize} (hj : j < subPageCount)
      (hne : ¬ (q = l.page ∧ j = l.sub ∧ o' = o)) :
      Function.update M (cellAddr l.page l.sub o) (some v) (cellAddr q j o') = M (cellAddr q j o') := by
    rw [Function.update_of_ne]
    intro he
    exact hne (cellAddr_inj hj hl.sub_lt he)
  refine ⟨h.table, h.store, h.slots, h.size, fits_mark h.fits rfl, fun q jt hq => cached_mark (h.cached q jt hq), ?_,
    h.entry_range, h.decrypts, ?_⟩
  · intro q jt j hq hv hj o' w hw
    have ho := o.isLt
    have ho' := o'.isLt
    have hold := h.valid q jt j hq hv hj o' w
    simp only [readSpan] at hold ⊢
    by_cases hsame : q = l.page ∧ j = l.sub
    · obtain ⟨rfl, rfl⟩ := hsame
      cases hit.symm.trans hq
      rw [hslot] at hold ⊢
      by_cases hoo : o' = o
      · subst hoo
        rw [Function.update_self] at hw ⊢
        exact Option.some.inj hw
      · rw [hM hj fun hx => hoo hx.2.2] at hw
        rw [Function.update_of_ne fun hx => hoo (Fin.ext (by omega))]
        exact hold hw
    · rw [hM hj fun hx => hsame ⟨hx.1, hx.2.1⟩] at hw
      have hne : ¬ (jt.epc = l.slot ∧ j = l.sub) := by
        rintro ⟨hx, hj'⟩
        exact hsame ⟨h.epc_inj hq hit (hx.trans hslot.symm), hj'⟩
      have hap := @epcAddr_apart cfg _ _ _ hj hl.sub_lt _ hne
      rw [Function.update_of_ne (by omega)]
      exact hold hw
  · intro q j hj
    by_cases hsame : q = l.page ∧ j = l.sub
    · exact Or.inl ⟨_, Multiset.mem_cons_self _ R, hsame.1.symm, hsame.2.symm, rfl⟩
    · have hcell (c : Fin subPageSize) : Function.update M (cellAddr l.page l.sub o) (some v) (cellAddr q j c) =
          M (cellAddr q j c) := hM hj fun hx => hsame ⟨hx.1, hx.2.1⟩
      rcases h.backed q j hj with hw | ⟨c, hb, ha⟩ | hblank
      · exact Or.inl (exists_mem_cons (wrote_of_cons (Or.inl hsame) hw))
      · refine Or.inr (Or.inl ⟨c, hb, ?_⟩)
        intro o' w hw
        rw [hcell o'] at hw
        exact ha o' w hw
      · refine Or.inr (Or.inr fun o' => ?_)
        rw [hcell o']
        exact hblank o'

end Eleos.Direct
