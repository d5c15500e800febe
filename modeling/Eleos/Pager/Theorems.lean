import Eleos.Pager.Lemmas.Bias
import Eleos.Pager.Lemmas.Fifo
import Eleos.Pager.Lemmas.Freshness
import Eleos.Pager.Lemmas.Isolation

/-!
# ページの管理の性質

参照の数の正しさ、読み書きの整合、追い出したページの新しさ、ページの間の独立、`Aptr` の偏り、追い出しの順を、
すべての実行について述べる。
-/

namespace Eleos.Pager

variable {cfg : Config} {G : Gcm} {s s' : Sys}

/-! ## 参照の数 -/

/-- 参照の数は、つながっている `Aptr` の個数に等しく、追い出すページにはどの `Aptr` もつながっていない。 -/
structure Sys.PinningExact (cfg : Config) (G : Gcm) (s : Sys) : Prop where
  refCount : ∀ p, (s.state.l1.refCount p).toNat = s.linkedCount p
  -- いまの状態で選ぶページ。
  selected : ∀ it c, s.state.l1.getPageIndexToEvict = .ok (it, c) → s.linkedCount it.pageIndex = 0
  -- いまの状態に至る操作の途中で選んだページ。
  evicted : ∀ s₀ op, Reach cfg G s₀ → Guard cfg s₀ op → s₀.step cfg G id op = .ok s →
    ∃ l, s.state.trace = l ++ s₀.state.trace ∧ ∀ p e, .evict p e ∈ l → s.linkedCount p = 0

theorem Sys.Pinned.toNat_refCount (h : s.Pinned cfg) (p : Int) :
    (s.state.l1.refCount p).toNat = s.linkedCount p % 256 := by
  rw [h.count p, UInt8.toNat_ofNat']

theorem Move.evicted {host : (Nat → UInt8) → Nat → UInt8} (h : Move cfg G host s s') :
    ∃ l, s'.state.trace = l ++ s.state.trace ∧ ∀ p e, .evict p e ∈ l → s'.state.l1.refCount p = 0 := by
  cases h with
  | add hl hb => exact ⟨[], rfl, by simp⟩
  | edit ha hl hp hb => exact ⟨[], rfl, by simp⟩
  | release ha ho => exact ⟨[], rfl, by simp⟩
  | @access d a s₁ i w ha hd hw hf =>
      obtain ⟨l, hl, _, hz⟩ := hf.evicted
      have hr : ((s₁.mark i a.hintWrite).access a (slotAddr cfg a i) w).l1.refCount = s₁.l1.refCount := by simp
      have ht : ∃ ev, ((s₁.mark i a.hintWrite).access a (slotAddr cfg a i) w).trace = ev :: s₁.trace ∧
          ∀ p e, ev ≠ .evict p e := by
        cases w with
        | none => exact ⟨_, by rw [State.access, State.mark_trace], by simp⟩
        | some v => exact ⟨_, by rw [State.access, State.mark_trace], by simp⟩
      obtain ⟨ev, hev, hne⟩ := ht
      refine ⟨ev :: l, by simp only [Sys.set, hev, hl, List.cons_append], ?_⟩
      intro p e hm
      simp only [Sys.set, hr]
      rcases List.mem_cons.mp hm with he | hm
      · exact absurd he.symm (hne p e)
      · exact hz p e hm

/-- 参照の数が正しいのは、どのページにも 255 個以下の `Aptr` しかつながっていないときに限る。 -/
theorem pinningExact_iff (h : Reach cfg G s) :
    s.PinningExact cfg G ↔ ∀ p, s.linkedCount p ≤ 255 := by
  have hp := h.pinned
  constructor
  · intro he p
    have h1 := he.refCount p
    have h2 := hp.toNat_refCount p
    omega
  · intro hle
    have hz : ∀ p, s.state.l1.refCount p = 0 → s.linkedCount p = 0 := by
      intro p h0
      have h1 := hp.toNat_refCount p
      have h2 := hle p
      rw [h0] at h1
      simp at h1
      omega
    refine ⟨?_, ?_, ?_⟩
    · intro p
      have h1 := hp.toNat_refCount p
      have h2 := hle p
      omega
    · intro it c hsel
      obtain ⟨_, h0, _⟩ := PageCache.getPageIndexToEvict_ok hsel
      exact hz _ h0
    · intro s₀ op h₀ hg hstep
      obtain ⟨l, hl, hev⟩ := (step_move h₀.pinned hg hstep).evicted
      exact ⟨l, hl, fun p e hm => hz p (hev p e hm)⟩

/-! ## 256 個の `Aptr` -/

def demoConfig : Config where
  cacheCapacity := 32
  llcCapacity := 8
  poolPages := 64
  slabPtr := 4096
  capacity_pos := capacity_thirtyTwo
  llc_pos := llc_eight
  poolPages_le := pool_sixtyFour
  slabPtr_ge := slab_page

/-- ノンスを足す暗号と、先頭のバイトによるタグ。 -/
def demoGcm : Gcm where
  encrypt := fun _ n p => some (fun o => p o + n.get ⟨0, nonce_pos⟩, Vector.replicate 16 (p ⟨0, pageSize_pos⟩))
  decrypt := fun _ n c t =>
    if t = Vector.replicate 16 (c ⟨0, pageSize_pos⟩ - n.get ⟨0, nonce_pos⟩) then some fun o => c o - n.get ⟨0, nonce_pos⟩ else none

def demoInit : Sys :=
  Sys.init demoConfig (fun _ => 0) (fun _ => 0) (Vector.replicate 16 0) fun k => Vector.replicate 12 (UInt8.ofNat k)

/-- 番地 0 の `Aptr` を `n` 個作り、作るたびに読む。 -/
def crowdOps : Nat → List Op
  | 0 => []
  | n + 1 => crowdOps n ++ [.construct 0 1, .read n]

theorem Sys.run_append (ops ops' : List Op) :
    s.run cfg G (ops ++ ops') = (s.run cfg G ops).bind fun t => t.run cfg G ops' := by
  induction ops generalizing s with
  | nil => rfl
  | cons op ops ih =>
      simp only [List.cons_append, Sys.run, Bind.bind]
      cases s.step cfg G id op with
      | error e => rfl
      | ok t => exact ih

/-- `n` 個の `Aptr` がページ 0 につながった状態。 -/
structure Crowded (n : Nat) (s : Sys) : Prop where
  run : demoInit.run demoConfig demoGcm (crowdOps n) = .ok s
  reach : Reach demoConfig demoGcm s
  length : s.aptrs.length = n
  count : s.linkedCount 0 = n
  loaded : n = 0 ∧ s = demoInit ∨ ∃ it, s.state.l1.get 0 = some it

def newAptr : Aptr :=
  { prmPtr := none, page := -1, offset := 4096, hintWrite := false, basePageIndex := 0, size := 1 }

theorem newAptr_derefable : newAptr.Derefable demoConfig :=
  ⟨by decide, by decide, by decide, fun _ => by decide⟩

theorem Crowded.fetch {n : Nat} (h : Crowded n s) :
    ∃ s₁ i, Fetch demoConfig demoGcm id s.state newAptr s₁ i ∧ ∃ it, s₁.l1.get 0 = some it := by
  rcases h.loaded with ⟨_, rfl⟩ | ⟨it, hit⟩
  · have hload : loadPage demoGcm (demoInit.state.relink none 0) 0 =
        .ok ((demoInit.state.relink none 0).install 0 31 (List.range 31).reverse none, 31) :=
      (loadPage_ok_iff rfl).mpr ⟨_, none, rfl, by decide, .absent rfl, rfl⟩
    exact ⟨_, 31, .major (by decide) rfl (makeRoom_ok_iff.mpr (Or.inl ⟨by decide, rfl⟩)) hload, ⟨0, 31⟩, rfl⟩
  · exact ⟨_, _, .minor (by decide) hit, it, hit⟩

theorem Crowded.succ {n : Nat} (h : Crowded n s) : ∃ s', Crowded (n + 1) s' := by
  obtain ⟨s₁, i, hf, hit⟩ := h.fetch
  let t : Sys := { s with aptrs := s.aptrs ++ [some newAptr] }
  have hconstruct : s.step demoConfig demoGcm id (.construct 0 1) = .ok t := rfl
  have hguard : Guard demoConfig s (.construct 0 1) := ⟨by decide, by decide⟩
  have hreach : Reach demoConfig demoGcm t := h.reach.step hguard hconstruct
  have hp := hreach.pinned
  have hget : t.get n = .ok newAptr := by
    rw [Sys.get_ok_iff]
    simp [t, ← h.length]
  have hder := (hp.deref_ok_iff hget newAptr_derefable).mpr ⟨s₁, i, hf, rfl, rfl, rfl⟩
  let t' : Sys := { t with state := (s₁.mark i newAptr.hintWrite).access newAptr (slotAddr demoConfig newAptr i) none }
  have hread : t.step demoConfig demoGcm id (.read n) = .ok (t'.set n (some (newAptr.linkTo i))) :=
    bind_ok_iff.mpr ⟨newAptr, hget, bind_ok_iff.mpr ⟨_, hder, rfl⟩⟩
  have hguard' : Guard demoConfig t (.read n) := ⟨newAptr, hget, newAptr_derefable⟩
  have hc := Sys.linkedCount_set (s := t) (Sys.get_ok_iff.mp hget) (some (newAptr.linkTo i)) 0
  have ht : t.linkedCount 0 = n + 0 := by rw [← h.count]; exact Sys.linkedCount_append s (some newAptr) 0
  refine ⟨t'.set n (some (newAptr.linkTo i)), ?_, hreach.step hguard' hread, ?_, ?_, Or.inr hit⟩
  · rw [crowdOps, Sys.run_append, h.run]
    simp only [Except.bind, Sys.run, hconstruct, bind_ok_iff]
    exact ⟨t, rfl, _, hread, rfl⟩
  · simp [t', t, Sys.set, h.length]
  · have h0 : hits (some newAptr) 0 = 0 := rfl
    have h1 : hits (some (newAptr.linkTo i)) 0 = 1 := by
      rw [hits, Option.bind_some, Aptr.linkTo_linkedPage?]
      rfl
    have hs : (t'.set n (some (newAptr.linkTo i))).linkedCount 0 =
        (t.set n (some (newAptr.linkTo i))).linkedCount 0 := rfl
    omega

theorem exists_crowded (n : Nat) : ∃ s, Crowded n s := by
  induction n with
  | zero => exact ⟨demoInit, rfl, .init _ _ _ _, rfl, rfl, Or.inl ⟨rfl, rfl⟩⟩
  | succ n ih =>
      obtain ⟨s, hs⟩ := ih
      exact hs.succ

/-- 255 個の `Aptr` がつながっても、参照の数は正しい。 -/
theorem pinningExact_iff_crowded : ∃ s, demoInit.run demoConfig demoGcm (crowdOps 255) = .ok s ∧
    Reach demoConfig demoGcm s ∧ s.linkedCount 0 = 255 ∧ s.PinningExact demoConfig demoGcm := by
  obtain ⟨s, hs⟩ := exists_crowded 255
  refine ⟨s, hs.run, hs.reach, hs.count, (pinningExact_iff hs.reach).mpr ?_⟩
  intro p
  calc s.linkedCount p ≤ s.linked.length := List.count_le_length
    _ ≤ s.aptrs.length := List.length_filterMap_le ..
    _ = 255 := hs.length

/-- 256 個の `Aptr` がつながると、参照の数は 0 に戻る。 -/
theorem crowd_not_pinningExact : ∃ s, demoInit.run demoConfig demoGcm (crowdOps 256) = .ok s ∧
    Reach demoConfig demoGcm s ∧ s.linkedCount 0 = 256 ∧ s.state.l1.refCount 0 = 0 ∧
    ¬ s.PinningExact demoConfig demoGcm := by
  obtain ⟨s, hs⟩ := exists_crowded 256
  have hz : s.state.l1.refCount 0 = 0 := by
    rw [hs.reach.pinned.count 0, hs.count]
    rfl
  refine ⟨s, hs.run, hs.reach, hs.count, hz, ?_⟩
  intro he
  have h0 := he.refCount 0
  rw [hz, hs.count] at h0
  exact absurd h0 (by decide)

/-! ## 読み書きの整合 -/

/-- 使い方の条件を満たす操作の列は止まらずに進み、読みは最後に書き込んだ値を返す。 -/
theorem suvm_coherent {epc pool : Nat → UInt8} {key : Key} {rand : Nat → Nonce} {ops : List Op} (hG : G.Correct)
    (hops : Admissible cfg G (Sys.init cfg epc pool key rand) ops) :
    ∃ s, (Sys.init cfg epc pool key rand).run cfg G ops = .ok s ∧ Coherent s.state.trace := by
  obtain ⟨s, hrun, hs⟩ := (Sys.init_good cfg epc pool key rand).run hG hops
  exact ⟨s, hrun, hs.coherent⟩

theorem demoGcm_correct : demoGcm.Correct := by
  intro k n p
  refine ⟨_, _, rfl, ?_⟩
  simp [demoGcm]

/-- 枠の余りが二つの構成。 -/
def tightConfig : Config where
  cacheCapacity := 12
  llcCapacity := 8
  poolPages := 64
  slabPtr := 4096
  capacity_pos := capacity_twelve
  llc_pos := llc_eight
  poolPages_le := pool_sixtyFour
  slabPtr_ge := slab_page

def tightInit : Sys :=
  Sys.init tightConfig (fun _ => 0) (fun _ => 0) (Vector.replicate 16 0) fun k => Vector.replicate 12 (UInt8.ofNat k)

/-- ページ 0 に書き、ページ 1 と 2 を読む。三つ目の読み込みでページ 0 を追い出し、その枠を使う。 -/
def leakOps (v : UInt8) : List Op :=
  [.construct 0 1, .hint 0 true, .write 0 v, .reset 0, .construct 4096 1, .read 1, .reset 1, .construct 8192 1,
    .read 2]

/-- さらにページ 0 を読み戻す。 -/
def reloadOps : List Op := leakOps 7 ++ [.reset 2, .construct 0 1, .read 3]

theorem suvm_coherent_reload : ∃ s, tightInit.run tightConfig demoGcm reloadOps = .ok s ∧
    Coherent s.state.trace :=
  suvm_coherent demoGcm_correct (by decide)

/-! ## 追い出したページの新しさ -/

/-- ホストがプールを好きなように書き換えても、読み込んだページは最後の追い出しの内容である。そうでない内容の読み込みは検査で止まる。 -/
theorem loads_fresh {epc pool : Nat → UInt8} {key : Key} {rand : Nat → Nonce} {hs : List HostOp} (hG : G.Inverts)
    (hrun : (Sys.init cfg epc pool key rand).runHost cfg G hs = .ok s) (hforge : Unforged s.state.trace)
    (hnonce : ∀ i j, i < s.state.randPos → j < s.state.randPos → s.state.rand i = s.state.rand j → i = j) :
    Fresh s.state.trace ∧ ∀ p y m, s.state.llc.get p = some y →
      G.decrypt s.state.evictionKey y.nonce (readPage m (ramPage p)) y.mac = none →
      loadPage G { s.state with pool := m } p = .error .abort := by
  have hlog := runHost_logged (State.init_logged cfg epc pool key rand) hrun
  refine ⟨hlog.recorded.fresh hG hforge (hlog.nonces_nodup hnonce), ?_⟩
  intro p y m hy hd
  exact loadPage_abort (s := { s.state with pool := m }) hy hd

/-- 三枚目より後ろを書き換えるホスト。 -/
def scribble : Host := fun m x => if x < 12288 then m x else m x + 1

def scribbledOps : List HostOp := reloadOps.map (HostOp.mk scribble scribble)

theorem demoGcm_inverts : demoGcm.Inverts := by
  intro k n p c t h
  cases h
  simp [demoGcm]

theorem scribbledOps_unforged : ∃ s, tightInit.runHost tightConfig demoGcm scribbledOps = .ok s ∧
    s.state.randPos = 1 ∧ Unforged s.state.trace := by decide +kernel

theorem loads_fresh_scribbled : ∃ s, tightInit.runHost tightConfig demoGcm scribbledOps = .ok s ∧
    Fresh s.state.trace := by
  obtain ⟨s, hrun, hpos, hforge⟩ := scribbledOps_unforged
  refine ⟨s, hrun, (loads_fresh demoGcm_inverts hrun hforge ?_).1⟩
  intro i j hi hj _
  rw [hpos] at hi hj
  omega

/-! ## ページの間の独立 -/

/-- ページ `p` の外に書く値だけが違う二つの実行では、`p` から読む値は、その番地に書き込みがあったとき、
または `p` の枠がほかのページに使われていないときに等しい。 -/
theorem reads_isolated {epc pool : Nat → UInt8} {key : Key} {rand : Nat → Nonce} {ops ops' : List Op} {p : Int}
    (hG : G.Correct) (hops : Admissible cfg G (Sys.init cfg epc pool key rand) ops)
    (hops' : Admissible cfg G (Sys.init cfg epc pool key rand) ops')
    (hag : AgreeAlong cfg G p (Sys.init cfg epc pool key rand) ops ops') :
    ∃ s t, (Sys.init cfg epc pool key rand).run cfg G ops = .ok s ∧
      (Sys.init cfg epc pool key rand).run cfg G ops' = .ok t ∧ Alike p s.state.trace t.state.trace := by
  have hgood := Sys.init_good (G := G) cfg epc pool key rand
  obtain ⟨s, t, hs, ht, hmir⟩ := run_mirror hG ⟨rfl, State.init_mirror cfg epc pool key rand⟩ hgood hgood hops hops' hag
  exact ⟨s, t, hs, ht, hmir.state.alike⟩

theorem AgreeAlong.refl {p : Int} (ops : List Op) : AgreeAlong cfg G p s ops ops := by
  induction ops generalizing s with
  | nil => trivial
  | cons op ops ih => exact ⟨.same _, fun _ _ => ih⟩

/-- ページ 0 に初めに書く値だけが違う、二つの操作の列。 -/
theorem write_agree {p : Int} (hp : 0 ≠ p) (ops : List Op) : AgreeAlong tightConfig demoGcm p tightInit
    ([.construct 0 1, .hint 0 true, .write 0 7] ++ ops) ([.construct 0 1, .hint 0 true, .write 0 8] ++ ops) := by
  refine ⟨.same _, ?_⟩
  rintro _ ⟨⟩
  refine ⟨.same _, ?_⟩
  rintro _ ⟨⟩
  exact ⟨.write 7 8 rfl hp, fun _ _ => .refl _⟩

/-- ページ 0 に書いて読み、ページ 1 を読んで書く。ページ 2 と 3 を読むと 0 と 1 が追い出され、最後にページ 1 を読み戻す。 -/
def apartOps (v : UInt8) : List Op :=
  [.construct 0 1, .hint 0 true, .write 0 v, .read 0, .reset 0, .construct 4096 1, .hint 1 true, .read 1, .write 1 5,
    .reset 1, .construct 8192 1, .read 2, .reset 2, .construct 12288 1, .read 3, .reset 3, .construct 4096 1, .read 4]

/-- ページ 0 の値が違っても、ページ 1 を初めに読む値は、新しい枠なので等しく、読み戻した値は、書いた値なので等しい。 -/
theorem reads_isolated_apart : ∃ s t, tightInit.run tightConfig demoGcm (apartOps 7) = .ok s ∧
    tightInit.run tightConfig demoGcm (apartOps 8) = .ok t ∧ Alike 1 s.state.trace t.state.trace ∧
    readsOf 0 s.state.trace = [7] ∧ readsOf 0 t.state.trace = [8] ∧
    readsOf 1 s.state.trace = [5, 0] ∧ readsOf 1 t.state.trace = [5, 0] := by
  obtain ⟨s, t, hs, ht, halike⟩ := reads_isolated (p := 1) demoGcm_correct (by decide) (by decide)
    (write_agree (by decide) ((apartOps 7).drop 3))
  have hreads : ∃ s t, tightInit.run tightConfig demoGcm (apartOps 7) = .ok s ∧
      tightInit.run tightConfig demoGcm (apartOps 8) = .ok t ∧ readsOf 0 s.state.trace = [7] ∧
      readsOf 0 t.state.trace = [8] ∧ readsOf 1 s.state.trace = [5, 0] ∧ readsOf 1 t.state.trace = [5, 0] :=
    ⟨_, _, rfl, rfl, rfl, rfl, rfl, rfl⟩
  obtain ⟨s', t', hs', ht', hr⟩ := hreads
  cases hs.symm.trans hs'
  cases ht.symm.trans ht'
  exact ⟨s, t, hs, ht, halike, hr⟩

theorem leakOps_agree : AgreeAlong tightConfig demoGcm 2 tightInit (leakOps 7) (leakOps 8) :=
  write_agree (by decide) ((leakOps 7).drop 3)

/-- 書き込みのないページ 2 から、追い出したページ 0 に書いた値が読める。 -/
theorem leakOps_reads : ∃ s t, Admissible tightConfig demoGcm tightInit (leakOps 7) ∧
    Admissible tightConfig demoGcm tightInit (leakOps 8) ∧
    AgreeAlong tightConfig demoGcm 2 tightInit (leakOps 7) (leakOps 8) ∧
    tightInit.run tightConfig demoGcm (leakOps 7) = .ok s ∧ tightInit.run tightConfig demoGcm (leakOps 8) = .ok t ∧
    readsOf 2 s.state.trace = [7] ∧ readsOf 2 t.state.trace = [8] :=
  ⟨_, _, by decide, by decide, leakOps_agree, rfl, rfl, rfl, rfl⟩

/-! ## つながっていない `Aptr` の参照 -/

/-- つながっていない `Aptr` の参照が必ず `page_fault` を通るのは、参照のたびに、構築と複写で決まる `home` のページの外を
指しているとき、かつそのときに限る。 -/
theorem fastPathLinked_iff (cfg : Config) (G : Gcm) (epc pool : Nat → UInt8) (key : Key) (rand : Nat → Nonce)
    (ops : List Op) : FastPathLinked cfg G (Sys.init cfg epc pool key rand) ops ↔
      DerefsAway cfg G (Sys.init cfg epc pool key rand) ops := by
  have hiff {pre : List Op} {d : Nat} {s : Sys} (hr : (Sys.init cfg epc pool key rand).run cfg G pre = .ok s) :
      s.DerefSafe cfg G d ↔ ∀ t, (trails pre)[d]?.join = some t → t.linked = true ∨ t.Away :=
    ((Sys.init_tracks cfg epc pool key rand).run hr).derefSafe_iff
  constructor
  · intro h pre op post d s hops hd hr
    exact (hiff hr).mp (h pre op post d s hops hd hr)
  · intro h pre op post d s hops hd hr
    exact (hiff hr).mpr (h pre op post d s hops hd hr)

/-- 8192 バイトの領域の番地 4104 に構築し、4096 バイト戻して、番地 8 を読む。 -/
def backOps : List Op := [.construct 4104 8192, .move 0 1 (-4096)]

theorem backOps_not_fastPathLinked : ∃ s a, tightInit.run tightConfig demoGcm backOps = .ok s ∧ s.get 0 = .ok a ∧
    a.addr = 8 ∧ a.prmPtr = none ∧ isValid a.offset = true ∧
    ¬ FastPathLinked tightConfig demoGcm tightInit (backOps ++ [.read 0]) := by
  refine ⟨_, _, rfl, rfl, rfl, rfl, rfl, ?_⟩
  intro h
  have hf := (h backOps (.read 0) [] 0 _ rfl rfl rfl).fault _ rfl (by decide) rfl
  revert hf
  decide

/-! ## 追い出しの順 -/

/-- 到達できるどの状態でも、待ち行列と個数と連鎖は一致し、参照のない最初のページを選ぶ。 -/
theorem pageCache_fifo {n b k : Nat} {c : PageCache} (hn : 0 < n) (hr : PageCache.Reach n b k c) : c.Fifo :=
  (hr.wf hn).fifo

/-- 二つのページを加え、先に加えたページを参照した状態。 -/
theorem pageCache_fifo_pinned : ∃ c, PageCache.Reach 8 4 4 c ∧ c.usedPages.toList = [0, 1] ∧ c.refCount 0 = 1 ∧
    c.Fifo := by
  have h₁ := @PageCache.Reach.step 8 4 4 _ _ (.tryAdd 0 0) .init (by decide) rfl
  have h₂ := @PageCache.Reach.step 8 4 4 _ _ (.tryAdd 1 1) h₁ (by decide) rfl
  have h₃ := @PageCache.Reach.step 8 4 4 _ _ (.inc 0) h₂ (by decide) rfl
  exact ⟨_, h₃, rfl, rfl, pageCache_fifo (by decide) h₃⟩

end Eleos.Pager
