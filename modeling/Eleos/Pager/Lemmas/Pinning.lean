import Eleos.Pager.Lemmas.Fault

/-!
# 操作の形と参照の数

前提を満たす一つの操作を `Move` の五つの形に分ける。参照の数は、どの形でも、つながっている `Aptr` の個数と
256 を法として一致する。
-/

namespace Eleos.Pager

variable {cfg : Config} {G : Gcm} {host : (Nat → UInt8) → Nat → UInt8} {s s' : Sys} {a a' : Aptr} {p : Int}
  {i d : Nat} {o : Option Aptr}

/-! ## `Aptr` の並び -/

theorem Sys.get_ok_iff : s.get d = .ok a ↔ s.aptrs[d]? = some (some a) := by
  unfold Sys.get
  cases h : s.aptrs[d]? with
  | none => simp
  | some o =>
      cases o with
      | none => simp
      | some b => simp

theorem Sys.mem_of_get (h : s.get d = .ok a) : some a ∈ s.aptrs :=
  List.mem_of_getElem? (Sys.get_ok_iff.mp h)

/-- オブジェクトがページ `p` につながっているとき 1 である。 -/
def hits (o : Option Aptr) (p : Int) : Nat := if o.bind Aptr.linkedPage? = some p then 1 else 0

theorem Sys.linkedCount_append (s : Sys) (o : Option Aptr) (p : Int) :
    Sys.linkedCount { s with aptrs := s.aptrs ++ [o] } p = s.linkedCount p + hits o p := by
  simp only [Sys.linkedCount, Sys.linked, List.filterMap_append, List.count_append, hits]
  congr 1
  cases h : o.bind Aptr.linkedPage? with
  | none => simp [h]
  | some q => simp [h, List.count_singleton]

theorem Sys.linkedCount_set (h : s.aptrs[d]? = some o) (x : Option Aptr) (p : Int) :
    (s.set d x).linkedCount p + hits o p = s.linkedCount p + hits x p := by
  obtain ⟨hd, ho⟩ := List.getElem?_eq_some_iff.mp h
  let f : Option Aptr → Bool := fun o => o.bind Aptr.linkedPage? == some p
  have hcount (t : Sys) : t.linkedCount p = t.aptrs.countP f := List.count_filterMap
  have hhits (o : Option Aptr) : hits o p = if f o then 1 else 0 := by simp [hits, f]
  have hpos : (if f o then 1 else 0) ≤ s.aptrs.countP f := by
    split
    · rename_i hf
      exact List.countP_pos_iff.mpr ⟨o, List.mem_of_getElem? h, hf⟩
    · exact Nat.zero_le _
  rw [hcount, hcount, hhits, hhits, Sys.set, List.countP_set hd, ho]
  omega

/-! ## 操作の形 -/

/-- 得た番地の読み書き。`w` が `none` のとき読みであり、`some v` のとき `v` の書き込みである。 -/
def State.access (t : State) (a : Aptr) (x : Nat) : Option UInt8 → State
  | none => { t with trace := .read a.addr (t.epc x) :: t.trace }
  | some v => { t with epc := Function.update t.epc x v, trace := .write a.addr v :: t.trace }

@[simp] theorem State.access_l1 {t : State} {x : Nat} {w : Option UInt8} : (t.access a x w).l1 = t.l1 := by
  cases w with
  | none => rfl
  | some v => rfl

@[simp] theorem State.access_epcArr {t : State} {x : Nat} {w : Option UInt8} :
    (t.access a x w).epcArr = t.epcArr := by
  cases w with
  | none => rfl
  | some v => rfl

/-- 参照をたどった `Aptr` が指す番地。 -/
def slotAddr (cfg : Config) (a : Aptr) (i : Nat) : Nat := cfg.slot i + (a.offset % pageSize).toNat

/-- 前提を満たす一つの操作の形。 -/
inductive Move (cfg : Config) (G : Gcm) (host : (Nat → UInt8) → Nat → UInt8) (s : Sys) : Sys → Prop where
  | add {a : Aptr} : a.prmPtr = none → a.basePageIndex < 524288 →
      Move cfg G host s { s with aptrs := s.aptrs ++ [some a] }
  | edit {d : Nat} {a a' : Aptr} : s.get d = .ok a → a'.prmPtr = a.prmPtr → a'.page = a.page →
      a'.basePageIndex = a.basePageIndex → Move cfg G host s (s.set d (some a'))
  | release {d : Nat} {a : Aptr} {o : Option Aptr} : s.get d = .ok a →
      (∀ b, o = some b → b.prmPtr = none ∧ b.basePageIndex < 524288) →
      Move cfg G host s ({ s with state := s.state.unlink a.linkedPage? }.set d o)
  | access {d : Nat} {a : Aptr} {s₁ : State} {i : Nat} {w : Option UInt8} : s.get d = .ok a →
      a.Derefable cfg → (w ≠ none → a.hintWrite = true) → Fetch cfg G host s.state a s₁ i →
      Move cfg G host s ({ s with state := (s₁.mark i a.hintWrite).access a (slotAddr cfg a i) w }.set d
        (some (a.linkTo i)))

/-- 参照の数の不変条件。 -/
structure Sys.Pinned (cfg : Config) (s : Sys) : Prop where
  slots : s.state.Slots cfg
  store : s.state.l1.backingStoreSize = cfg.poolPages
  bounded : ∀ a, some a ∈ s.aptrs → a.Bounded cfg
  count : ∀ p, s.state.l1.refCount p = UInt8.ofNat (s.linkedCount p)

theorem Sys.Pinned.deref_ok_iff {t : State} {x : Nat} (hp : s.Pinned cfg) (ha : s.get d = .ok a)
    (hd : a.Derefable cfg) : deref cfg G host s.state a = .ok (t, a', x) ↔
      ∃ u i, Fetch cfg G host s.state a u i ∧ t = u.mark i a.hintWrite ∧ a' = a.linkTo i ∧ x = slotAddr cfg a i :=
  Pager.deref_ok_iff hp.slots hp.store (hp.bounded a (Sys.mem_of_get ha)) hd

theorem Sys.Pinned.reset_eq (hp : s.Pinned cfg) (ha : s.get d = .ok a) :
    a.reset s.state = .ok (s.state.unlink a.linkedPage?, { a with basePageIndex := -1, prmPtr := none }) :=
  Aptr.reset_eq hp.slots hp.store (hp.bounded a (Sys.mem_of_get ha))

theorem Aptr.base_lt_of_construct {x : Int} {n : Nat} (hx : 0 ≤ x ∧ x < cfg.poolPages * pageSize)
    (h : Aptr.construct x n = .ok a) : a.prmPtr = none ∧ a.basePageIndex < 524288 := by
  have hpool : (cfg.poolPages : Int) ≤ 524288 := by exact_mod_cast cfg.poolPages_le
  have hq : x / pageSize < cfg.poolPages := Int.ediv_lt_of_lt_mul (by simp [pageSize]) hx.2
  have hq0 : 0 ≤ x / pageSize := Int.ediv_nonneg hx.1 (by simp [pageSize])
  unfold Aptr.construct at h
  simp only at h
  split at h
  · cases h
    exact ⟨rfl, by simp only; rw [int32_of_range (by omega) (by omega)]; omega⟩
  · cases h

/-- 参照をたどる操作の対象。 -/
def Op.aptr? : Op → Option Nat
  | .read d | .write d _ => some d
  | _ => none

/-- 参照をたどる操作は、枠を得て、得た番地を一度読み書きする。 -/
theorem step_deref {op : Op} (hp : s.Pinned cfg) (hop : op.aptr? = some d) (hg : Guard cfg s op)
    (h : s.step cfg G host op = .ok s') : ∃ a t i w, s.get d = .ok a ∧ a.Derefable cfg ∧
      (w ≠ none → a.hintWrite = true) ∧ Fetch cfg G host s.state a t i ∧
      s' = Sys.set { s with state := (t.mark i a.hintWrite).access a (slotAddr cfg a i) w } d (some (a.linkTo i)) := by
  cases op with
  | read e =>
      cases hop
      obtain ⟨b, hb, hd⟩ := hg
      obtain ⟨a, ha, h⟩ := bind_ok_iff.mp h
      cases hb.symm.trans ha
      obtain ⟨⟨t, a', x⟩, hder, h⟩ := bind_ok_iff.mp h
      obtain ⟨u, i, hf, rfl, rfl, rfl⟩ := (hp.deref_ok_iff hb hd).mp hder
      cases h
      exact ⟨b, u, i, none, hb, hd, fun hw => absurd rfl hw, hf, rfl⟩
  | write e v =>
      cases hop
      obtain ⟨b, hb, hd, hw⟩ := hg
      obtain ⟨a, ha, h⟩ := bind_ok_iff.mp h
      cases hb.symm.trans ha
      obtain ⟨⟨t, a', x⟩, hder, h⟩ := bind_ok_iff.mp h
      obtain ⟨u, i, hf, rfl, rfl, rfl⟩ := (hp.deref_ok_iff hb hd).mp hder
      cases h
      exact ⟨b, u, i, some v, hb, hd, fun _ => hw, hf, rfl⟩
  | construct x n => cases hop
  | null junk => cases hop
  | copy src => cases hop
  | assign dst src => cases hop
  | move e n k => cases hop
  | hint e b => cases hop
  | reset e => cases hop
  | destroy e => cases hop

/-- 操作は五つの形のどれかになる。 -/
theorem step_move {op : Op} (hp : s.Pinned cfg) (hg : Guard cfg s op) (h : s.step cfg G host op = .ok s') :
    Move cfg G host s s' := by
  cases op with
  | construct x n =>
      obtain ⟨a, ha, h⟩ := bind_ok_iff.mp h
      cases h
      obtain ⟨hl, hb⟩ := Aptr.base_lt_of_construct hg ha
      exact .add hl hb
  | null junk =>
      cases h
      exact .add rfl (by simp [Aptr.null])
  | copy src =>
      obtain ⟨a, ha, h⟩ := bind_ok_iff.mp h
      cases h
      exact .add rfl (hp.bounded a (Sys.mem_of_get ha)).base_lt
  | assign dst src =>
      obtain ⟨a, ha, h⟩ := bind_ok_iff.mp h
      rw [hp.reset_eq ha] at h
      obtain ⟨_, ⟨rfl⟩, h⟩ := bind_ok_iff.mp h
      obtain ⟨b, hb, h⟩ := bind_ok_iff.mp h
      have hs' : s' = { s with state := s.state.unlink a.linkedPage? }.set dst (some b.doCopy) := by
        cases h
        simp [Sys.set]
      subst hs'
      refine .release ha ?_
      rintro c ⟨rfl⟩
      refine ⟨rfl, ?_⟩
      rcases List.mem_or_eq_of_mem_set (Sys.mem_of_get hb) with hm | hm
      · exact (hp.bounded b hm).base_lt
      · cases hm
        simp [Aptr.doCopy]
  | move d n k =>
      obtain ⟨a, ha, h⟩ := bind_ok_iff.mp h
      cases h
      exact .edit ha rfl rfl rfl
  | hint d b =>
      obtain ⟨a, ha, h⟩ := bind_ok_iff.mp h
      cases h
      exact .edit ha rfl rfl rfl
  | read d =>
      obtain ⟨a, t, i, w, ha, hd, hw, hf, rfl⟩ := step_deref hp rfl hg h
      exact .access ha hd hw hf
  | write d v =>
      obtain ⟨a, t, i, w, ha, hd, hw, hf, rfl⟩ := step_deref hp rfl hg h
      exact .access ha hd hw hf
  | reset d =>
      obtain ⟨a, ha, h⟩ := bind_ok_iff.mp h
      rw [hp.reset_eq ha] at h
      cases h
      refine .release ha ?_
      rintro c ⟨rfl⟩
      exact ⟨rfl, by simp⟩
  | destroy d =>
      obtain ⟨a, ha, h⟩ := bind_ok_iff.mp h
      rw [hp.reset_eq ha] at h
      cases h
      exact .release ha (fun _ hc => by cases hc)

/-! ## 参照の数の保存 -/

theorem ofNat_unlink {r : Int → UInt8} {n m : Int → Nat} (o : Option Aptr)
    (hr : ∀ p, r p = UInt8.ofNat (n p)) (hm : ∀ p, m p + hits o p = n p) (p : Int) :
    unlink r (o.bind Aptr.linkedPage?) p = UInt8.ofNat (m p) := by
  have hp := hm p
  unfold hits at hp
  cases hl : o.bind Aptr.linkedPage? with
  | none =>
      rw [hl] at hp
      simp only [reduceCtorEq, ↓reduceIte, Nat.add_zero] at hp
      rw [Pager.unlink, hr p, hp]
  | some q =>
      rw [hl] at hp
      by_cases hq : p = q
      · subst hq
        simp only [↓reduceIte] at hp
        rw [Pager.unlink, Function.update_self, hr p, ← hp, UInt8.ofNat_add]
        simp
      · simp only [Option.some.injEq, Ne.symm hq, ↓reduceIte, Nat.add_zero] at hp
        rw [Pager.unlink, Function.update_of_ne hq, hr p, hp]

/-- 追い出しと読み込みの項目。 -/
def Event.Paging : Event → Prop
  | .evict _ _ | .load _ _ _ _ => True
  | .read _ _ | .write _ _ => False

/-- 枠を得るまでの履歴は追い出しと読み込みだけであり、追い出すページには参照がない。 -/
theorem Fetch.evicted {t t₁ : State} (h : Fetch cfg G host t a t₁ i) :
    ∃ l, t₁.trace = l ++ t.trace ∧ (∀ ev ∈ l, ev.Paging) ∧ ∀ p e, .evict p e ∈ l → t₁.l1.refCount p = 0 := by
  have hframe := h.frame
  cases h with
  | hit hv hi => exact ⟨[], rfl, by simp, by simp⟩
  | minor hv hg => exact ⟨[], rfl, by simp, by simp⟩
  | major hv hg hm hl =>
      have hn := makeRoom_get_none hm hg
      obtain ⟨rest, e, _, _, _, rfl⟩ := (loadPage_ok_iff (by exact hn)).mp hl
      rw [hframe.refCount]
      rcases makeRoom_ok_iff.mp hm with ⟨_, rfl⟩ | ⟨_, it, c, hscan, hev⟩
      · exact ⟨[_], rfl, by simp [Event.Paging], by simp⟩
      · obtain ⟨_, hz, r, rfl⟩ := PageCache.getPageIndexToEvict_ok hscan
        obtain ⟨_, ⟨_, rfl⟩ | ⟨_, e', _, rfl⟩⟩ := tryEvictPage_ok_iff.mp hev
        · refine ⟨[_, _], rfl, by simp [Event.Paging], ?_⟩
          intro p e hm
          simp at hm
          rw [hm.1]
          exact hz
        · refine ⟨[_, _], rfl, by simp [Event.Paging], ?_⟩
          intro p e hm
          simp at hm
          rw [hm.1]
          exact hz

theorem Aptr.linkTo_linkedPage? : (a.linkTo i).linkedPage? = some a.target := by
  simp [Aptr.linkedPage?, Aptr.linkTo, Aptr.normal]

/-- 参照を付け替えたあとの数は、操作のあとにつながっている `Aptr` の個数である。 -/
theorem relink_count (hp : s.Pinned cfg) (ha : s.get d = .ok a) (p : Int) :
    (s.state.relink a.linkedPage? a.target).l1.refCount p =
      UInt8.ofNat ((s.set d (some (a.linkTo i))).linkedCount p) := by
  have hc := Sys.linkedCount_set (Sys.get_ok_iff.mp ha) (some (a.linkTo i))
  have hle : ∀ q, hits (some a) q ≤ s.linkedCount q := by
    intro q
    have hz := Sys.linkedCount_set (Sys.get_ok_iff.mp ha) none q
    simp only [hits, Option.bind_none, reduceCtorEq, ↓reduceIte, Nat.add_zero] at hz
    simp only [hits]
    omega
  have hu := ofNat_unlink (m := fun q => s.linkedCount q - hits (some a) q) (some a) hp.count
    (fun q => Nat.sub_add_cancel (hle q))
  simp only [Option.bind_some] at hu
  have hn : hits (some (a.linkTo i)) p = if a.target = p then 1 else 0 := by
    simp only [hits, Option.bind_some, Aptr.linkTo_linkedPage?, Option.some.injEq]
  have hcp := hc p
  have hlp := hle p
  by_cases ht : p = a.target
  · subst ht
    rw [if_pos rfl] at hn
    simp only [State.relink, Function.update_self, hu]
    rw [show (1 : UInt8) = UInt8.ofNat 1 from rfl, ← UInt8.ofNat_add]
    congr 1
    omega
  · rw [if_neg (Ne.symm ht)] at hn
    simp only [State.relink, Function.update_of_ne ht, hu]
    congr 1
    omega

/-- 枠を得て `Aptr` をつないだ状態。 -/
def Sys.fetched (s : Sys) (d : Nat) (a : Aptr) (t : State) (i : Nat) : Sys :=
  { s with state := t.mark i a.hintWrite }.set d (some (a.linkTo i))

theorem Fetch.pinned {t : State} (hp : s.Pinned cfg) (ha : s.get d = .ok a) (hd : a.Derefable cfg)
    (hf : Fetch cfg G host s.state a t i) : (s.fetched d a t i).Pinned cfg := by
  have hframe := hf.frame
  refine ⟨(hframe.slots hp.slots).mark, ?_, ?_, ?_⟩
  · simp only [Sys.fetched, Sys.set, State.mark_l1]
    exact hframe.store.trans hp.store
  · intro b hm
    rcases List.mem_or_eq_of_mem_set hm with hm | hm
    · exact hp.bounded b hm
    · cases hm
      have hb := hp.bounded a (Sys.mem_of_get ha)
      refine ⟨hb.base_lt, fun _ => ⟨hd.base, ?_, ?_⟩⟩
      · simpa [Aptr.linkTo, Aptr.normal] using hd.target_nonneg
      · simpa [Aptr.linkTo, Aptr.normal] using hd.target_lt
  · intro p
    simp only [Sys.fetched, Sys.set, State.mark_l1, hframe.refCount]
    exact relink_count hp ha p

theorem Move.pinned (hp : s.Pinned cfg) (h : Move cfg G host s s') : s'.Pinned cfg := by
  cases h with
  | @add a hl hb =>
      refine ⟨hp.slots, hp.store, ?_, ?_⟩
      · intro b hm
        rcases List.mem_append.mp hm with hm | hm
        · exact hp.bounded b hm
        · cases List.mem_singleton.mp hm
          exact ⟨hb, fun h => absurd hl h⟩
      · intro p
        rw [Sys.linkedCount_append, hits]
        simp [Aptr.linkedPage?, hl, hp.count p]
  | @edit d a a' ha hl hpg hbs =>
      have hb := hp.bounded a (Sys.mem_of_get ha)
      refine ⟨hp.slots, hp.store, ?_, ?_⟩
      · intro b hm
        rcases List.mem_or_eq_of_mem_set hm with hm | hm
        · exact hp.bounded b hm
        · cases hm
          exact ⟨hbs ▸ hb.base_lt, fun h => by rw [hbs, hpg]; exact hb.linked (hl ▸ h)⟩
      · intro p
        have hc := Sys.linkedCount_set (Sys.get_ok_iff.mp ha) (some a') p
        have hlp : a'.linkedPage? = a.linkedPage? := by
          unfold Aptr.linkedPage?
          rw [hl, hpg, hbs]
        have hh : hits (some a') p = hits (some a) p := by
          simp only [hits, Option.bind_some, hlp]
        rw [show (s.set d (some a')).linkedCount p = s.linkedCount p by omega]
        exact hp.count p
  | @release d a o ha ho =>
      refine ⟨hp.slots, hp.store, ?_, ?_⟩
      · intro b hm
        rcases List.mem_or_eq_of_mem_set hm with hm | rfl
        · exact hp.bounded b hm
        · obtain ⟨hl, hb⟩ := ho b rfl
          exact ⟨hb, fun h => absurd hl h⟩
      · have hc := Sys.linkedCount_set (Sys.get_ok_iff.mp ha) o
        have hz : ∀ p, hits o p = 0 := by
          intro p
          cases o with
          | none => simp [hits]
          | some b => simp [hits, Aptr.linkedPage?, (ho b rfl).1]
        exact ofNat_unlink (some a) hp.count fun p => by rw [← Nat.add_zero (s.linkedCount p), ← hz p]; exact hc p
  | @access d a s₁ i w ha hd hw hf =>
      have h := hf.pinned hp ha hd
      cases w with
      | none => exact ⟨h.slots, h.store, h.bounded, h.count⟩
      | some v => exact ⟨h.slots, h.store, h.bounded, h.count⟩

theorem Sys.init_pinned (cfg : Config) (epc pool : Nat → UInt8) (key : Key) (rand : Nat → Nonce) :
    (Sys.init cfg epc pool key rand).Pinned cfg where
  slots := by
    intro i
    have h : (cfg.slabPtr / pageSize * pageSize + i * pageSize) % 2 = 0 := by
      simp only [pageSize]
      omega
    simp only [Sys.init, State.init, clearTag, Config.slot, Config.slab, h, Nat.sub_zero]
  store := rfl
  bounded := by simp [Sys.init]
  count := by intro p; rfl

theorem Reach.pinned (h : Reach cfg G s) : s.Pinned cfg := by
  induction h with
  | init epc pool key rand => exact Sys.init_pinned cfg epc pool key rand
  | step _ hg hstep ih => exact Move.pinned ih (step_move ih hg hstep)

end Eleos.Pager
