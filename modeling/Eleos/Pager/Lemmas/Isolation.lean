import Eleos.Pager.Twin
import Eleos.Pager.Lemmas.Coherence

/-!
# 二つの実行の対応

二つの実行の状態は、表、枠の使い方、履歴の形が同じである。ページ `p` の中身は、`p` の枠がほかのページに使われていなければ等しい。
-/

namespace Eleos.Pager

variable {cfg : Config} {G : Gcm} {p q : Int} {s s' t t' : State} {a : Aptr} {it : Item} {i : Nat}

structure State.Mirror (cfg : Config) (G : Gcm) (p : Int) (s t : State) : Prop where
  epcArr : t.epcArr = s.epcArr
  free : t.freeEpcPages = s.freeEpcPages
  l1 : t.l1 = s.l1
  entries : ∀ q, (t.llc.get q).isSome = (s.llc.get q).isSome
  alike : Alike p s.trace t.trace
  loaded : ∀ q it, s.l1.get q = some it → ∃ e c, .load q it.epc e c ∈ s.trace
  -- `p` の項目がまだない間の、`p` だけが使った枠の中身。
  fresh : s.llc.get p = none → ∀ i, Sole p i s.trace →
    readPage s.epc (cfg.slot i) = readPage t.epc (cfg.slot i)
  resident : Private p s.trace → ∀ it, s.l1.get p = some it →
    readPage s.epc (cfg.slot it.epc) = readPage t.epc (cfg.slot it.epc)
  backed : Private p s.trace → s.l1.get p = none → ∀ c d, s.Backed G p c → t.Backed G p d → c = d

theorem State.init_mirror (cfg : Config) (epc pool : Nat → UInt8) (key : Key) (rand : Nat → Nonce) :
    (State.init cfg epc pool key rand).Mirror cfg G p (State.init cfg epc pool key rand) where
  epcArr := rfl
  free := rfl
  l1 := rfl
  entries := fun _ => rfl
  alike := .nil
  loaded := fun q it h => by cases h
  fresh := fun _ _ _ => rfl
  resident := fun _ it h => by cases h
  backed := fun _ _ c d hc hd => hc.unique hd

theorem State.Mirror.unlink {o : Option Int} (h : s.Mirror cfg G p t) :
    (s.unlink o).Mirror cfg G p (t.unlink o) :=
  ⟨h.epcArr, h.free, by simp only [State.unlink, h.l1], h.entries, h.alike, h.loaded, h.fresh, h.resident, h.backed⟩

theorem State.Mirror.relink {o : Option Int} (h : s.Mirror cfg G p t) :
    (s.relink o q).Mirror cfg G p (t.relink o q) :=
  ⟨h.epcArr, h.free, by simp only [State.relink, h.l1], h.entries, h.alike, h.loaded, h.fresh, h.resident, h.backed⟩

theorem Alike.lastWrite_eq {l m : List Event} {x : Int} (h : Alike p l m) (hx : x / pageSize = p) :
    lastWrite l x = lastWrite m x := by
  induction h with
  | nil => rfl
  | evict _ _ ih => exact ih
  | load _ _ ih => exact ih
  | read _ _ ih => exact ih
  | @write l m y v v' _ hv ih =>
      simp only [lastWrite]
      split
      · rename_i heq
        rw [hv (heq ▸ hx)]
      · exact ih

/-! ## 追い出し -/

theorem CryptoCache.get_write_isSome {m : CryptoCache} {n : Nonce} {g : Tag} :
    (((m.add p).write p n g).get q).isSome = if q = p then true else (m.get q).isSome := by
  by_cases hq : q = p
  · subst hq
    rw [CryptoCache.get_write_self, if_pos rfl]
    rfl
  · rw [CryptoCache.get_write_ne hq, if_neg hq]

theorem State.Mirror.writeBack {e e' : Seal} {M N : Int → Option UInt8} (h : s.Mirror cfg G p t)
    (hs : s.Holds cfg G M) (ht : t.Holds cfg G N) (hw : s.Wf cfg) (hit : s.l1.get it.pageIndex = some it) :
    (s.writeBack it e).Mirror cfg G p (t.writeBack it e') := by
  have hrange := hw.page_range _ _ hit
  refine ⟨?_, h.free, h.l1, ?_, h.alike, h.loaded, ?_, h.resident, ?_⟩
  · simp only [State.writeBack, h.epcArr]
  · intro q
    simp only [State.writeBack, CryptoCache.get_write_isSome, h.entries]
  · intro hn
    have hne : p ≠ it.pageIndex := by
      rintro rfl
      simp only [State.writeBack, CryptoCache.get_write_self, reduceCtorEq] at hn
    simp only [State.writeBack, CryptoCache.get_write_ne hne] at hn
    exact h.fresh hn
  · intro hpriv hn c d hc hd
    have hne : p ≠ it.pageIndex := by
      rintro rfl
      cases hn.symm.trans hit
    have hget {u : State} {e : Seal} : (u.writeBack it e).llc.get p = u.llc.get p := CryptoCache.get_write_ne hne
    have hc' : s.Backed G p c := by
      have hc₀ := hc
      obtain ⟨y, hy, _⟩ := hc
      exact (State.Backed.writeBack_ne hne (hs.entry_range p y (hget ▸ hy)) hrange).mp hc₀
    have hd' : t.Backed G p d := by
      have hd₀ := hd
      obtain ⟨y, hy, _⟩ := hd
      exact (State.Backed.writeBack_ne hne (ht.entry_range p y (hget ▸ hy)) hrange).mp hd₀
    exact h.backed hpriv hn c d hc' hd'

theorem State.Mirror.drop {r : Ring Int} {e e' : Option Seal} {M N : Int → Option UInt8} (h : s.Mirror cfg G p t)
    (hs : s.Holds cfg G M) (ht : t.Holds cfg G N) (hw : s.Wf cfg) (hit : s.l1.get it.pageIndex = some it)
    (hclean : tagBit (s.epcArr it.epc) = false) (he : e.isSome = e'.isSome) :
    ((s.rotate r).drop it e).Mirror cfg G p ((t.rotate r).drop it e') := by
  have hget {q : Int} := State.get_drop (e := e) (r := r) hw it q
  have hmem {q : Int} {jt : Item} (hq : ((s.rotate r).drop it e).l1.get q = some jt) := (State.mem_drop hw hq).2
  refine ⟨h.epcArr, ?_, ?_, h.entries, .evict h.alike he, ?_, ?_, ?_, ?_⟩
  · simp only [State.drop, State.rotate, h.free]
  · simp only [State.drop, State.rotate, h.l1]
  · intro q jt hq
    obtain ⟨e₁, c, hm⟩ := h.loaded q jt (hmem hq)
    exact ⟨e₁, c, List.mem_cons_of_mem _ hm⟩
  · intro hn j hj
    exact h.fresh hn j fun q e c hm => hj q e c (List.mem_cons_of_mem _ hm)
  · intro hpriv jt hj
    exact h.resident hpriv jt (hmem hj)
  · intro hpriv hn c d hc hd
    rw [hget] at hn
    split at hn
    · rename_i heq
      subst heq
      rw [← hs.clean _ it c hit hclean hc, ← ht.clean _ it d (h.l1 ▸ hit) (h.epcArr ▸ hclean) hd]
      exact h.resident hpriv it hit
    · exact h.backed hpriv hn c d hc hd

/-! ## 読み込み -/

theorem State.slotAfter_apart {e : Option Seal} {j x : Nat} (hi : s.epcArr i = cfg.slot i) (hj : i ≠ j)
    (hx : x < pageSize) : s.slotAfter i e (cfg.slot j + x) = s.epc (cfg.slot j + x) := by
  cases e with
  | none => rfl
  | some e =>
      have := cfg.slot_apart hj
      rw [State.slotAfter, hi]
      exact writePage_of_apart (by omega)

theorem State.Unseals.isSome {e : Option Seal} (h : s.Unseals G q e) : e.isSome = (s.llc.get q).isSome := by
  cases h with
  | absent hn => simp [hn]
  | present hy _ => simp [hy]

theorem Private.of_install {l : List Nat} {e : Option Seal} (hpq : p ≠ q)
    (h : Private p (s.install q i l e).trace) : Private p s.trace := by
  cases e with
  | none =>
      simp only [State.install, Private, if_neg hpq.symm] at h
      exact h
  | some e => exact h

theorem State.Mirror.install {l : List Nat} {e e' : Option Seal} (h : s.Mirror cfg G p t) (hw : s.Wf cfg)
    (hg : s.l1.get q = none) (hf : s.freeEpcPages = i :: l) (hu : s.Unseals G q e) (hu' : t.Unseals G q e') :
    (s.install q i l e).Mirror cfg G p (t.install q i l e') := by
  have hget {r : Int} := State.get_install (i := i) (l := l) (e := e) hg r
  have hi : s.epcArr i = cfg.slot i := by
    rw [← hw.slots i, clearTag_of_tagBit_false (hw.free_clean i (by rw [hf]; exact List.mem_cons_self))]
  have hi' : t.epcArr i = cfg.slot i := by rw [h.epcArr, hi]
  have hkeep {j : Nat} (hj : i ≠ j) (heq : readPage s.epc (cfg.slot j) = readPage t.epc (cfg.slot j)) :
      readPage (s.slotAfter i e) (cfg.slot j) = readPage (t.slotAfter i e') (cfg.slot j) := by
    funext o
    have ho := congrFun heq o
    simp only [readPage] at ho ⊢
    rw [State.slotAfter_apart hi hj o.isLt, State.slotAfter_apart hi' hj o.isLt, ho]
  have hne {r : Int} {jt : Item} (hr : s.l1.get r = some jt) : i ≠ jt.epc := by
    rintro rfl
    exact hw.free_apart r jt hr (by rw [hf]; exact List.mem_cons_self)
  have hsome : e.isSome = e'.isSome := by rw [hu.isSome, hu'.isSome, h.entries]
  refine ⟨h.epcArr, rfl, ?_, h.entries, .load h.alike hsome, ?_, ?_, ?_, ?_⟩
  · simp only [State.install, h.l1]
  · intro r jt hr
    rw [hget] at hr
    split at hr
    · rename_i heq
      cases hr
      subst heq
      exact ⟨e, _, List.mem_cons_self⟩
    · obtain ⟨e₁, c, hm⟩ := h.loaded r jt hr
      exact ⟨e₁, c, List.mem_cons_of_mem _ hm⟩
  · intro hn j hj
    have hj' : Sole p j s.trace := fun r e c hm => hj r e c (List.mem_cons_of_mem _ hm)
    by_cases hij : i = j
    · subst hij
      -- この枠に読み込むのは `p` だけなので、`q` は `p` であり、復号しない。
      have hqp : q = p := hj q _ _ List.mem_cons_self
      subst hqp
      have hn' : s.llc.get q = none := hn
      cases e with
      | some e =>
          have hentry := hu.isSome
          rw [hn'] at hentry
          cases hentry
      | none =>
          cases e' with
          | some e' => cases hsome
          | none => exact h.fresh hn i hj'
    · exact hkeep hij (h.fresh hn j hj')
  · intro hpriv jt hj
    rw [hget] at hj
    split at hj
    · rename_i heq
      subst heq
      cases hj
      cases hu with
      | absent hn =>
          cases e' with
          | some e' => cases hsome
          | none =>
              simp only [State.install, Private, ↓reduceIte] at hpriv
              exact h.fresh hn i hpriv
      | present hy hd =>
          cases hu' with
          | absent _ => cases hsome
          | present hy' hd' =>
              have heq := h.backed hpriv hg _ _ ⟨_, hy, hd⟩ ⟨_, hy', hd'⟩
              simp only [State.install, State.slotAfter, hi, hi', readPage_writePage_self, heq]
    · rename_i hpq
      exact hkeep (hne hj) (h.resident (hpriv.of_install hpq) jt hj)
  · intro hpriv hn c d hc hd
    rw [hget] at hn
    split at hn
    · cases hn
    · rename_i hpq
      exact h.backed (hpriv.of_install hpq) hn c d hc hd

/-! ## 読み書き -/

theorem State.Mirror.mark {b : Bool} (h : s.Mirror cfg G p t) : (s.mark i b).Mirror cfg G p (t.mark i b) := by
  cases b with
  | false => exact h
  | true =>
      exact ⟨by simp [State.mark, h.epcArr], h.free, h.l1, h.entries, h.alike, h.loaded, h.fresh, h.resident,
        h.backed⟩

theorem State.Mirror.read (h : s.Mirror cfg G p t)
    (hs : s.Holds cfg G (lastWrite s.trace)) (ht : t.Holds cfg G (lastWrite t.trace))
    (hg : s.l1.get a.target = some ⟨a.target, i⟩) :
    (s.access a (slotAddr cfg a i) none).Mirror cfg G p (t.access a (slotAddr cfg a i) none) := by
  refine ⟨h.epcArr, h.free, h.l1, h.entries, .read h.alike ?_, ?_, ?_, h.resident, h.backed⟩
  · intro hp hcase
    have hag : a.addr = byteAddr a.target a.within := a.addr_eq
    have hap : a.target = p := hp
    rcases hcase with hwritten | hpriv
    · obtain ⟨w, hlast⟩ := Option.ne_none_iff_exists'.mp hwritten
      have hlast' := (h.alike.lastWrite_eq hp).symm.trans hlast
      rw [hag] at hlast hlast'
      have h₁ := hs.resident _ _ a.within w hg hlast
      have h₂ := ht.resident _ _ a.within w (h.l1 ▸ hg) hlast'
      dsimp only at h₁ h₂
      rw [slotAddr_eq, h₁, h₂]
    · subst hap
      have hpage := h.resident hpriv _ hg
      dsimp only at hpage
      rw [slotAddr_eq]
      exact congrFun hpage a.within
  · intro q jt hq
    obtain ⟨e, c, hm⟩ := h.loaded q jt hq
    exact ⟨e, c, List.mem_cons_of_mem _ hm⟩
  · intro hn j hj
    exact h.fresh hn j fun q e c hm => hj q e c (List.mem_cons_of_mem _ hm)

theorem readPage_update_apart {m : Nat → UInt8} {j : Nat} {v : UInt8} {o : Fin pageSize} (h : i ≠ j) :
    readPage (Function.update m (cfg.slot i + o) v) (cfg.slot j) = readPage m (cfg.slot j) := by
  funext o'
  have := cfg.slot_apart h
  have := o.isLt
  have := o'.isLt
  simp only [readPage]
  rw [Function.update_of_ne]
  omega

theorem readPage_update_congr {m m' : Nat → UInt8} {b x : Nat} {v : UInt8} (h : readPage m b = readPage m' b) :
    readPage (Function.update m x v) b = readPage (Function.update m' x v) b := by
  funext o
  have ho := congrFun h o
  simp only [readPage, Function.update_apply] at ho ⊢
  rw [ho]

theorem State.Mirror.write {v w : UInt8} (h : s.Mirror cfg G p t) (hw : s.Wf cfg)
    (hg : s.l1.get a.target = some ⟨a.target, i⟩) (hv : a.target = p → v = w) :
    (s.access a (slotAddr cfg a i) (some v)).Mirror cfg G p (t.access a (slotAddr cfg a i) (some w)) := by
  have hsame {j : Nat} (hj : a.target ≠ p → i ≠ j) (heq : readPage s.epc (cfg.slot j) = readPage t.epc (cfg.slot j)) :
      readPage (Function.update s.epc (slotAddr cfg a i) v) (cfg.slot j) =
        readPage (Function.update t.epc (slotAddr cfg a i) w) (cfg.slot j) := by
    by_cases hap : a.target = p
    · rw [hv hap]
      exact readPage_update_congr heq
    · rw [slotAddr_eq, readPage_update_apart (hj hap), readPage_update_apart (hj hap), heq]
  refine ⟨h.epcArr, h.free, h.l1, h.entries, .write h.alike hv, ?_, ?_, ?_, h.backed⟩
  · intro q jt hq
    obtain ⟨e, c, hm⟩ := h.loaded q jt hq
    exact ⟨e, c, List.mem_cons_of_mem _ hm⟩
  · intro hn j hj
    have hj' : Sole p j s.trace := fun q e c hm => hj q e c (List.mem_cons_of_mem _ hm)
    refine hsame ?_ (h.fresh hn j hj')
    rintro hap rfl
    obtain ⟨e, c, hm⟩ := h.loaded _ _ hg
    exact hap (hj' _ e c hm)
  · intro hpriv jt hjt
    refine hsame ?_ (h.resident hpriv jt hjt)
    intro hap heq
    exact hap (hw.epc_inj _ _ _ jt hg hjt heq)

/-! ## 同じ操作 -/

theorem makeRoom_mirror {s₁ t₁ : State} {M N : Int → Option UInt8} (hG : G.Correct) (h : s.Mirror cfg G p t)
    (hw : s.Wf cfg) (hw' : t.Wf cfg) (hs : s.Holds cfg G M) (ht : t.Holds cfg G N)
    (hm : makeRoom cfg G s = .ok s₁) (hm' : makeRoom cfg G t = .ok t₁) : s₁.Mirror cfg G p t₁ := by
  rcases makeRoom_ok_iff.mp hm with ⟨hlt, rfl⟩ | ⟨hle, it, c, hscan, hev⟩
  · rcases makeRoom_ok_iff.mp hm' with ⟨_, rfl⟩ | ⟨hle, _⟩
    · exact h
    · rw [h.l1] at hle
      omega
  · rcases makeRoom_ok_iff.mp hm' with ⟨hlt, _⟩ | ⟨_, it', c', hscan', hev'⟩
    · rw [h.l1] at hlt
      omega
    · rw [h.l1, hscan] at hscan'
      cases hscan'
      obtain ⟨hit, _, r, rfl⟩ := PageCache.getPageIndexToEvict_ok hscan
      have hl1 : { t.l1 with usedPages := r } = { s.l1 with usedPages := r } := by rw [h.l1]
      rw [← hl1] at hev'
      obtain ⟨_, ⟨hb, rfl⟩ | ⟨hb, e, he, rfl⟩⟩ := tryEvictPage_ok_iff.mp hev
      · obtain ⟨_, ⟨_, rfl⟩ | ⟨hb', _⟩⟩ := tryEvictPage_ok_iff.mp hev'
        · exact h.drop hs ht hw hit hb rfl
        · simp only [h.epcArr] at hb'
          cases hb.symm.trans hb'
      · obtain ⟨_, ⟨hb', _⟩ | ⟨_, e', he', rfl⟩⟩ := tryEvictPage_ok_iff.mp hev'
        · simp only [h.epcArr] at hb'
          cases hb.symm.trans hb'
        · have hit' : t.l1.get it.pageIndex = some it := h.l1 ▸ hit
          exact (h.writeBack hs ht hw hit).drop (hs.writeBack hG hw hit he) (ht.writeBack hG hw' hit' he') hw.writeBack
            hit (by simp [State.writeBack]) rfl

theorem Fetch.mirror {s₁ t₁ : State} {j : Nat} {M N : Int → Option UInt8} (hG : G.Correct) (h : s.Mirror cfg G p t)
    (hw : s.Wf cfg) (hw' : t.Wf cfg) (hs : s.Holds cfg G M) (ht : t.Holds cfg G N)
    (hf : Fetch cfg G id s a s₁ i) (hf' : Fetch cfg G id t a t₁ j) : s₁.Mirror cfg G p t₁ ∧ i = j := by
  have hrel : (s.relink a.linkedPage? a.target).Mirror cfg G p (t.relink a.linkedPage? a.target) := h.relink
  cases hf with
  | hit hv hi =>
      cases hf' with
      | hit _ hj =>
          cases hi.symm.trans hj
          exact ⟨h, rfl⟩
      | minor hv' _ => cases hv.symm.trans hv'
      | major hv' _ _ _ => cases hv.symm.trans hv'
  | minor hv hg =>
      cases hf' with
      | hit hv' _ => cases hv.symm.trans hv'
      | minor _ hg' =>
          rw [h.l1, hg] at hg'
          cases hg'
          exact ⟨hrel, rfl⟩
      | major _ hg' _ _ =>
          rw [h.l1, hg] at hg'
          cases hg'
  | major hv hg hm hl =>
      cases hf' with
      | hit hv' _ => cases hv.symm.trans hv'
      | minor _ hg' =>
          rw [h.l1, hg] at hg'
          cases hg'
      | major _ hg' hm' hl' =>
          have hws : (s.relink a.linkedPage? a.target).Wf cfg := hw.withRefCount
          have hwt : (t.relink a.linkedPage? a.target).Wf cfg := hw'.withRefCount
          have hmir := makeRoom_mirror hG hrel hws hwt hs.withRefCount ht.withRefCount hm hm'
          have hn := makeRoom_get_none hm hg
          have hn' := makeRoom_get_none hm' hg'
          obtain ⟨rest, e, hfree, _, hu, rfl⟩ := (loadPage_ok_iff (by exact hn)).mp hl
          obtain ⟨rest', e', hfree', _, hu', rfl⟩ := (loadPage_ok_iff (by exact hn')).mp hl'
          have hcons := hfree.symm.trans (hmir.free.symm.trans hfree')
          cases hcons
          exact ⟨hmir.install ((makeRoom_room hws hm).wf hws) hn hfree hu hu', rfl⟩

/-- `Aptr` が同じで、状態が対応する二つの実行。 -/
structure Sys.Mirror (cfg : Config) (G : Gcm) (p : Int) (s t : Sys) : Prop where
  aptrs : t.aptrs = s.aptrs
  state : s.state.Mirror cfg G p t.state

theorem Sys.Mirror.get {s t : Sys} {d : Nat} (h : s.Mirror cfg G p t) : t.get d = s.get d := by
  unfold Sys.get
  rw [h.aptrs]

theorem Sys.Mirror.set {s t : Sys} {d : Nat} {o : Option Aptr} (h : s.Mirror cfg G p t) :
    (s.set d o).Mirror cfg G p (t.set d o) :=
  ⟨by simp only [Sys.set, h.aptrs], h.state⟩

/-- 対応する二つの状態で同じ番号のオブジェクトを取ると、同じ値になる。 -/
theorem Sys.Mirror.get_bind {s t s' t' : Sys} {d : Nat} {f g : Aptr → Except Stop Sys} (h : s.Mirror cfg G p t)
    (hst : (s.get d >>= f) = .ok s') (hst' : (t.get d >>= g) = .ok t') :
    ∃ a, s.get d = .ok a ∧ f a = .ok s' ∧ g a = .ok t' := by
  obtain ⟨a, ha, hst⟩ := bind_ok_iff.mp hst
  obtain ⟨b, hb, hst'⟩ := bind_ok_iff.mp hst'
  cases ha.symm.trans (h.get.symm.trans hb)
  exact ⟨a, ha, hst, hst'⟩

/-- 読み書きの一段。 -/
theorem access_mirror {s t : Sys} {s₁ t₁ : State} {d x y : Nat} {b c : Aptr} {w w' : Option UInt8} (hG : G.Correct)
    (h : s.Mirror cfg G p t) (hs : s.Good cfg G) (ht : t.Good cfg G) (ha : s.get d = .ok a) (hd : a.Derefable cfg)
    (hww : (w = none ∧ w' = none) ∨ ∃ v v', w = some v ∧ w' = some v' ∧ (a.target = p → v = v'))
    (hder : deref cfg G id s.state a = .ok (s₁, b, x)) (hder' : deref cfg G id t.state a = .ok (t₁, c, y)) :
    b = c ∧ (s₁.access a x w).Mirror cfg G p (t₁.access a y w') := by
  obtain ⟨u, i, hf, rfl, rfl, rfl⟩ := (hs.pinned.deref_ok_iff ha hd).mp hder
  obtain ⟨u', j, hf', rfl, rfl, rfl⟩ := (ht.pinned.deref_ok_iff (h.get.trans ha) hd).mp hder'
  obtain ⟨hmir, rfl⟩ := hf.mirror hG h.state hs.wf ht.wf hs.holds ht.holds hf'
  have hget := (hf.get hs.wf fun j hj => hs.links a j (Sys.mem_of_get ha) hj).1
  have hwu := hf.wf hs.wf hd
  have hgetm : (u.mark i a.hintWrite).l1.get a.target = some ⟨a.target, i⟩ := by
    rw [State.mark_l1]
    exact hget
  have hwm : (u.mark i a.hintWrite).Wf cfg := hwu.mark (hwu.free_apart _ _ hget)
  have hlast {r : Sys} {r₁ : State} {k : Nat} (hfr : Fetch cfg G id r.state a r₁ k) :
      lastWrite (r₁.mark k a.hintWrite).trace = lastWrite r.state.trace := by
    obtain ⟨l, hl, hpage, _⟩ := hfr.evicted
    rw [State.mark_trace, hl, lastWrite_append hpage]
  refine ⟨rfl, ?_⟩
  rcases hww with ⟨rfl, rfl⟩ | ⟨v, v', rfl, rfl, hv⟩
  · refine hmir.mark.read ?_ ?_ hgetm
    · rw [hlast hf]
      exact (hf.holds hG hs.wf hs.holds).mark
    · rw [hlast hf']
      exact (hf'.holds hG ht.wf ht.holds).mark
  · exact hmir.mark.write hwm hgetm hv

/-- 値のほかは同じ書き込み。 -/
theorem write_mirror {s t s' t' : Sys} {d : Nat} {v v' : UInt8} (hG : G.Correct) (h : s.Mirror cfg G p t)
    (hs : s.Good cfg G) (ht : t.Good cfg G) (ha : s.get d = .ok a) (hd : a.Derefable cfg)
    (hv : a.target = p → v = v') (hst : s.step cfg G id (.write d v) = .ok s')
    (hst' : t.step cfg G id (.write d v') = .ok t') : s'.Mirror cfg G p t' := by
  obtain ⟨_, ha₁, hst, hst'⟩ := h.get_bind hst hst'
  cases ha.symm.trans ha₁
  obtain ⟨⟨s₁, b, x⟩, hder, hst⟩ := bind_ok_iff.mp hst
  obtain ⟨⟨t₁, c, y⟩, hder', hst'⟩ := bind_ok_iff.mp hst'
  obtain ⟨rfl, hmir⟩ := access_mirror hG h hs ht ha hd (Or.inr ⟨v, v', rfl, rfl, hv⟩) hder hder'
  cases hst
  cases hst'
  exact Sys.Mirror.set ⟨h.aptrs, hmir⟩

/-- 対応する二つの状態で同じ形の操作を行うと、また対応する。 -/
theorem step_mirror {s t s' t' : Sys} {op op' : Op} (hG : G.Correct) (h : s.Mirror cfg G p t) (hs : s.Good cfg G)
    (ht : t.Good cfg G) (hg : Guard cfg s op) (hop : op.AgreeOff p s op') (hst : s.step cfg G id op = .ok s')
    (hst' : t.step cfg G id op' = .ok t') : s'.Mirror cfg G p t' := by
  cases hop with
  | @write d a v w ha hne =>
      obtain ⟨b, hb, hd, _⟩ := hg
      cases ha.symm.trans hb
      exact write_mirror hG h hs ht ha hd (fun heq => absurd heq hne) hst hst'
  | same =>
      cases op with
      | construct x n =>
          obtain ⟨a, ha, hst⟩ := bind_ok_iff.mp hst
          obtain ⟨b, hb, hst'⟩ := bind_ok_iff.mp hst'
          cases ha.symm.trans hb
          cases hst
          cases hst'
          exact ⟨by simp only [h.aptrs], h.state⟩
      | null junk =>
          cases hst
          cases hst'
          exact ⟨by simp only [h.aptrs], h.state⟩
      | copy src =>
          obtain ⟨a, ha, hst, hst'⟩ := h.get_bind hst hst'
          cases hst
          cases hst'
          exact ⟨by simp only [h.aptrs], h.state⟩
      | assign dst src =>
          obtain ⟨a, ha, hst, hst'⟩ := h.get_bind hst hst'
          rw [hs.pinned.reset_eq ha] at hst
          rw [ht.pinned.reset_eq (h.get.trans ha)] at hst'
          obtain ⟨_, ⟨rfl⟩, hst⟩ := bind_ok_iff.mp hst
          obtain ⟨_, ⟨rfl⟩, hst'⟩ := bind_ok_iff.mp hst'
          obtain ⟨c, hc, hst⟩ := bind_ok_iff.mp hst
          obtain ⟨e, he, hst'⟩ := bind_ok_iff.mp hst'
          have hmir : Sys.Mirror cfg G p { s with state := s.state.unlink a.linkedPage? }
              { t with state := t.state.unlink a.linkedPage? } := ⟨h.aptrs, h.state.unlink⟩
          rw [hmir.set.get] at he
          cases hc.symm.trans he
          cases hst
          cases hst'
          exact hmir.set.set
      | move d n k =>
          obtain ⟨a, ha, hst, hst'⟩ := h.get_bind hst hst'
          cases hst
          cases hst'
          exact h.set
      | hint d v =>
          obtain ⟨a, ha, hst, hst'⟩ := h.get_bind hst hst'
          cases hst
          cases hst'
          exact h.set
      | read d =>
          obtain ⟨a, ha, hd⟩ := hg
          obtain ⟨_, ha₁, hst, hst'⟩ := h.get_bind hst hst'
          cases ha.symm.trans ha₁
          obtain ⟨⟨s₁, b, x⟩, hder, hst⟩ := bind_ok_iff.mp hst
          obtain ⟨⟨t₁, c, y⟩, hder', hst'⟩ := bind_ok_iff.mp hst'
          obtain ⟨rfl, hmir⟩ := access_mirror hG h hs ht ha hd (Or.inl ⟨rfl, rfl⟩) hder hder'
          cases hst
          cases hst'
          exact Sys.Mirror.set ⟨h.aptrs, hmir⟩
      | write d v =>
          obtain ⟨a, ha, hd, _⟩ := hg
          exact write_mirror hG h hs ht ha hd (fun _ => rfl) hst hst'
      | reset d =>
          obtain ⟨a, ha, hst, hst'⟩ := h.get_bind hst hst'
          rw [hs.pinned.reset_eq ha] at hst
          rw [ht.pinned.reset_eq (h.get.trans ha)] at hst'
          cases hst
          cases hst'
          exact Sys.Mirror.set ⟨h.aptrs, h.state.unlink⟩
      | destroy d =>
          obtain ⟨a, ha, hst, hst'⟩ := h.get_bind hst hst'
          rw [hs.pinned.reset_eq ha] at hst
          rw [ht.pinned.reset_eq (h.get.trans ha)] at hst'
          cases hst
          cases hst'
          exact Sys.Mirror.set ⟨h.aptrs, h.state.unlink⟩

/-- 使い方の条件を満たす二つの実行は、対応する状態で終わる。 -/
theorem run_mirror {s t : Sys} {ops ops' : List Op} (hG : G.Correct) (h : s.Mirror cfg G p t) (hs : s.Good cfg G)
    (ht : t.Good cfg G) (hops : Admissible cfg G s ops) (hops' : Admissible cfg G t ops')
    (hag : AgreeAlong cfg G p s ops ops') :
    ∃ s' t', s.run cfg G ops = .ok s' ∧ t.run cfg G ops' = .ok t' ∧ s'.Mirror cfg G p t' := by
  induction ops generalizing s t ops' with
  | nil =>
      cases ops' with
      | nil => exact ⟨s, t, rfl, rfl, h⟩
      | cons op' ops' => cases hag
  | cons op ops ih =>
      cases ops' with
      | nil => cases hag
      | cons op' ops' =>
          obtain ⟨hw, hg, hnext⟩ := hops
          obtain ⟨hw', hg', hnext'⟩ := hops'
          obtain ⟨hop, hag⟩ := hag
          obtain ⟨s₁, hst⟩ := step_progress hG hs hw hg
          obtain ⟨t₁, hst'⟩ := step_progress hG ht hw' hg'
          have hs₁ := (step_move hs.pinned hg hst).good hG hs (hnext s₁ hst).within
          have ht₁ := (step_move ht.pinned hg' hst').good hG ht (hnext' t₁ hst').within
          obtain ⟨s', t', hr, hr', hmir⟩ := ih (step_mirror hG h hs ht hg hop hst hst') hs₁ ht₁ (hnext s₁ hst)
            (hnext' t₁ hst') (hag s₁ hst)
          exact ⟨s', t', bind_ok_iff.mpr ⟨s₁, hst, hr⟩, bind_ok_iff.mpr ⟨t₁, hst', hr'⟩, hmir⟩

end Eleos.Pager
