import Eleos.Pager.Theorems
import Eleos.Shared.Lemmas.Honest

/-!
# 複数のスレッドのもとでの読み書きの一貫性
-/

namespace Eleos.Shared

open Eleos.Pager

variable {n : Nat} {cfg : Config} {G : Gcm} {m m' : Machine n} {t : Fin n}

/-! ## 手順に沿う実行の到達 -/

theorem refs_le_of_links {k : Nat} (hl : ∀ t, (m.threads t).links.length ≤ k) (p : Int) :
    m.world.refs p ≤ n * (k + 1) := by
  have hsum := Finset.sum_le_card_nsmul Finset.univ (fun t => (m.world.threads t).pin p) (k + 1) ?_
  · simpa [Threads.World.refs, tally] using hsum
  · intro t _
    have h₁ : ((m.world.threads t).links.map Prod.fst).count p ≤ (m.threads t).links.length := by
      apply List.count_le_length.trans
      simp
    have h₂ : (m.world.threads t).pc.pin p ≤ 1 := by
      cases (m.world.threads t).pc with
      | idle => simp [Threads.Pc.pin]
      | inc q => simp [Threads.Pc.pin]
      | _ =>
          simp only [Threads.Pc.pin]
          split <;> omega
    have := hl t
    unfold Threads.Thread.pin
    omega

theorem Machine.Allowed.step {H : Tampering} {mv : Move n} (h : m.Allowed cfg mv) (hm : m.move cfg G mv = .ok m') :
    Step cfg G H m (.ok m') := by
  obtain ⟨t, act⟩ := mv
  rw [← hm]
  cases act with
  | none => exact .advance t
  | some act => exact .start t act h.1 h.2

theorem Reach.run {H : Tampering} {k : Nat} {mvs : List (Move n)} (h : Reach cfg G H m) (hk : n * (k + 1) ≤ 255)
    (ha : m.Along cfg G k mvs) (hrun : m.run cfg G mvs = .ok m') : Reach cfg G H m' := by
  induction mvs generalizing m with
  | nil =>
      cases hrun
      exact h
  | cons mv mvs ih =>
      obtain ⟨m₁, hm, hrun⟩ := bind_ok_iff.mp hrun
      obtain ⟨hl, ha₁⟩ := ha.2 m₁ hm
      exact ih (h.step (ha.1.step hm) fun p => (refs_le_of_links hl p).trans hk) ha₁ hrun

theorem Reach.refs {H : Tampering} (h : Reach cfg G H m) (p : Int) : m.world.refs p ≤ 255 := by
  cases h with
  | init epc pool key rand => exact (Threads.Inv.init cfg).refs_le p
  | step _ _ hle => exact hle p

/-! ## 追い出しと復号が交わる実行 -/

/-- スレッド `t` がページ `p` を読み込み、`v` を書いて手放す。 -/
def inscribeMoves (t : Fin 2) (p : Int) (v : UInt8) : List (Move 2) :=
  (t, some (.fault none p)) :: List.replicate 6 (t, none) ++
    [(t, some (.mark 0)), (t, some (.write 0 ⟨0, pageSize_pos⟩ v)), (t, some (.reset 0)), (t, none)]

/-- スレッド `t` がページ `p` を読み込んで手放す。 -/
def visitMoves (t : Fin 2) (p : Int) : List (Move 2) :=
  (t, some (.fault none p)) :: List.replicate 6 (t, none) ++ [(t, some (.reset 0)), (t, none)]

/-- スレッド 0 がページ 0 に、スレッド 1 がページ 1 に書いたあと、スレッド 1 がほかのページを読んでその二つを追い出す。
ページ 1 の追い出しは、枠を返す前で止める。 -/
def evictMoves : List (Move 2) :=
  inscribeMoves 0 0 7 ++ inscribeMoves 1 1 9 ++ (List.range' 2 20).flatMap (visitMoves 1) ++
    (1, some (.fault none 22)) :: List.replicate 9 (1, none) ++ [(1, some (.reset 0)), (1, none)] ++
    (1, some (.fault none 23)) :: List.replicate 5 (1, none)

/-- スレッド 1 が枠を返してページ 23 を読み込む間に、スレッド 0 がページ 0 を復号して読む。 -/
def reloadMoves : List (Move 2) :=
  [(0, some (.fault none 0)), (0, none), (0, none), (0, none), (1, none), (1, none), (0, none), (1, none), (0, none),
    (0, none), (0, some (.read 0 ⟨0, pageSize_pos⟩)), (1, none)]

/-- 二つのスレッドの初めの状態。ノンスは取り出した順の番号を並べたものである。 -/
def duoInit : Machine 2 :=
  .init Threads.duoConfig (fun _ => 0) (fun _ => 0) (Vector.replicate 16 0) fun k => Vector.replicate 12 (UInt8.ofNat k)

/-- 復号したページ。 -/
def reloads : List Event → List Int
  | [] => []
  | .load p _ (some _) _ :: l => p :: reloads l
  | _ :: l => reloads l

/-! ## 正直なホスト -/

/-- 遷移のあとも、枠の勘定は釣り合う。 -/
theorem Outcome.world (hn : n ≤ maxNumOfThreadsOptimization) (hcap : 32 ≤ cfg.cacheCapacity)
    (hw : Threads.Inv cfg m.world) (ho : Outcome cfg G m t (.ok m')) (hle : ∀ p, m'.world.refs p ≤ 255) :
    Threads.Inv cfg m'.world := by
  cases ho with
  | go hs he =>
      rcases hs with hs | hs
      · rw [hs]
        exact hw
      · obtain ⟨c, f, th, heq, hb⟩ := hw.goes hcap hs
        have heq := Except.ok.inj heq
        rw [heq] at hle ⊢
        exact hb.inv hn hw hle

theorem Reach.sound (hn : n ≤ maxNumOfThreadsOptimization) (hcap : 32 ≤ cfg.cacheCapacity) (hG : G.Correct)
    (h : Reach cfg G honest m) : Threads.Inv cfg m.world ∧ Content cfg G m ∧ Intact cfg m.mem := by
  induction h with
  | init epc pool key rand =>
      refine ⟨Threads.Inv.init cfg, Machine.init_content cfg G epc pool key rand, ?_, ?_⟩
      · intro p it hp
        cases hp
      · intro p e he
        cases he
  | @step m m' _ hs hle ih =>
      obtain ⟨hw, hc, hi⟩ := ih
      rcases hs.outcome with ⟨t, ho⟩ | ⟨pool, hp, heq⟩
      · have hw' := ho.world hn hcap hw hle
        cases ho with
        | go _ he => exact ⟨hw', he.content hw hc (hi.trusted hG hc.logged), he.intact hw hi⟩
      · cases heq
        cases hp
        exact ⟨hw, hc, hi⟩

/-- 10 個以下のスレッドのどの交互実行でも、読みは最後に書き込まれた値を返し、どの遷移も検査で止まらない。 -/
theorem shared_coherent (hn : n ≤ maxNumOfThreadsOptimization) (hcap : 32 ≤ cfg.cacheCapacity) (hG : G.Correct)
    (h : Reach cfg G honest m) :
    Coherent m.mem.trace ∧ ∀ r, Step cfg G honest m r → ∃ m', r = .ok m' := by
  obtain ⟨hw, hc, hi⟩ := h.sound hn hcap hG
  refine ⟨hc.coherent, ?_⟩
  intro r hs
  rcases hs.outcome with ⟨t, ho⟩ | ⟨pool, _, rfl⟩
  · exact ho.progress hG hcap hw hc hi
  · exact ⟨_, rfl⟩

theorem duoInit_reloads : duoInit.Along Threads.duoConfig demoGcm 1 (evictMoves ++ reloadMoves) ∧
    ∃ m, duoInit.run Threads.duoConfig demoGcm (evictMoves ++ reloadMoves) = .ok m ∧
      m.Allowed Threads.duoConfig (1, some (.reset 0)) ∧ (seals m.mem.trace).length = 2 ∧
      reloads m.mem.trace = [0] ∧ readsOf 0 m.mem.trace = [7] := by decide +kernel

theorem shared_coherent_reload : ∃ m, Reach Threads.duoConfig demoGcm honest m ∧
    duoInit.run Threads.duoConfig demoGcm (evictMoves ++ reloadMoves) = .ok m ∧ (seals m.mem.trace).length = 2 ∧
    reloads m.mem.trace = [0] ∧ readsOf 0 m.mem.trace = [7] ∧ Coherent m.mem.trace ∧
      ∃ m', m.start 1 (.reset 0) = .ok m' := by
  obtain ⟨ha, m, hrun, hnext, hevents⟩ := duoInit_reloads
  have hr : Reach Threads.duoConfig demoGcm honest m := (Reach.init _ _ _ _).run (by decide) ha hrun
  have hsafe := shared_coherent (by decide) (by decide) demoGcm_correct hr
  exact ⟨m, hr, hrun, hevents.1, hevents.2.1, hevents.2.2, hsafe.1, hsafe.2 _ (.start 1 (.reset 0) hnext.1 hnext.2)⟩

/-! ## 悪意のあるホスト -/

theorem unforged_of_append {l₁ l₂ : List Event} (h : Unforged (l₁ ++ l₂)) : Unforged l₂ := by
  intro l p i e c l' heq
  apply h (l₁ ++ l) p i e c l'
  rw [heq, List.append_assoc]

/-- ノンスは、取り出した位置ごとに異なる。 -/
def Distinct (s : State) : Prop := ∀ i j, i < s.randPos → j < s.randPos → s.rand i = s.rand j → i = j

/-- 履歴とノンスの位置は伸びるだけである。 -/
theorem Effect.grows {s : State} {th : Thread} (he : Effect G m t s th) :
    (∃ l, s.trace = l ++ m.mem.trace) ∧ (Distinct s → Distinct m.mem) := by
  cases he with
  | quiet _ _ => exact ⟨⟨[], rfl⟩, id⟩
  | evict _ _ _ hev =>
      obtain ⟨t', ht', rfl⟩ := evictLocked_ok_iff.mp hev
      obtain ⟨_, ⟨_, rfl⟩ | ⟨_, e, _, rfl⟩⟩ := tryEvictPage_ok_iff.mp ht'
      · exact ⟨⟨[_], rfl⟩, id⟩
      · exact ⟨⟨[_], rfl⟩, fun h i j hi hj => h i j (Nat.lt_succ_of_lt hi) (Nat.lt_succ_of_lt hj)⟩
  | load _ _ => exact ⟨⟨[_], rfl⟩, id⟩
  | enter _ _ => exact ⟨⟨[], rfl⟩, id⟩
  | mark _ => exact ⟨⟨[], rfl⟩, id⟩
  | read _ => exact ⟨⟨[_], rfl⟩, id⟩
  | write _ _ => exact ⟨⟨[_], rfl⟩, id⟩

/-- 偽造がなければ、復号は最後に暗号化した内容を返す。 -/
theorem trusted_of_unforged {s : State} (hG : G.Inverts) (h : Content cfg G m) (hu : Unforged s.trace)
    (hd : Distinct s) : Trusted G m s := by
  rintro p i e hun rfl
  have hlog := h.logged.load (i := i) hun
  have hfresh := hlog.recorded.fresh hG hu (hlog.nonces_nodup hd)
  rcases hfresh [] p i e _ m.mem.trace rfl with ⟨rfl, hnone⟩ | ⟨e₀, he₀, hne, hc⟩
  · simp [hnone]
  · cases e with
    | none => exact absurd rfl hne
    | some e =>
        have hplain : e.plain = e₀.plain := by
          rw [← hc]
          exact readPage_writePage_self.symm
        simp [he₀, hplain]

theorem Reach.content (hn : n ≤ maxNumOfThreadsOptimization) (hcap : 32 ≤ cfg.cacheCapacity) (hG : G.Inverts)
    (h : Reach cfg G hostile m) (hu : Unforged m.mem.trace) (hd : Distinct m.mem) :
    Threads.Inv cfg m.world ∧ Content cfg G m := by
  induction h with
  | init epc pool key rand => exact ⟨Threads.Inv.init cfg, Machine.init_content cfg G epc pool key rand⟩
  | @step m m' _ hs hle ih =>
      rcases hs.outcome with ⟨t, ho⟩ | ⟨pool, _, heq⟩
      · cases ho with
        | @go s th hstep he =>
            obtain ⟨⟨l, hl⟩, hdist⟩ := he.grows
            have hu' : Unforged (l ++ m.mem.trace) := hl ▸ hu
            obtain ⟨hw, hc⟩ := ih (unforged_of_append hu') (hdist hd)
            exact ⟨Outcome.world hn hcap hw (.go hstep he) hle, he.content hw hc (trusted_of_unforged hG hc hu hd)⟩
      · cases heq
        obtain ⟨hw, hc⟩ := ih hu hd
        exact ⟨hw, hc.host⟩

/-- ホストがいつプールを書き換えても、偽造がなくノンスが重ならなければ、どのスレッドの読み込みも最後の追い出しの内容であり、
読みは最後に書き込まれた値を返す。 -/
theorem shared_fresh (hn : n ≤ maxNumOfThreadsOptimization) (hcap : 32 ≤ cfg.cacheCapacity) (hG : G.Inverts)
    (h : Reach cfg G hostile m) (hu : Unforged m.mem.trace)
    (hr : ∀ i j, i < m.mem.randPos → j < m.mem.randPos → m.mem.rand i = m.mem.rand j → i = j) :
    Fresh m.mem.trace ∧ Coherent m.mem.trace := by
  obtain ⟨_, hc⟩ := h.content hn hcap hG hu hr
  exact ⟨hc.logged.recorded.fresh hG hu (hc.logged.nonces_nodup hr), hc.coherent⟩

/-- 暗号文のあるページ 0 と 1 の後ろを書き換えるホスト。 -/
def spoil (pool : Nat → UInt8) (x : Nat) : UInt8 := if x < 8192 then pool x else pool x + 1

def Machine.spoiled (m : Machine n) : Machine n := { m with mem := { m.mem with pool := spoil m.mem.pool } }

theorem duoInit_spoiled : duoInit.Along Threads.duoConfig demoGcm 1 evictMoves ∧
    ∃ m₁, duoInit.run Threads.duoConfig demoGcm evictMoves = .ok m₁ ∧
      m₁.spoiled.Along Threads.duoConfig demoGcm 1 reloadMoves ∧
      ∃ m, m₁.spoiled.run Threads.duoConfig demoGcm reloadMoves = .ok m ∧
        (reloads m.mem.trace = [0] ∧ readsOf 0 m.mem.trace = [7] ∧ m.mem.randPos = 2) ∧ Unforged m.mem.trace ∧
        ∀ i < m.mem.randPos, ∀ j < m.mem.randPos, m.mem.rand i = m.mem.rand j → i = j := by decide +kernel

/-- 二回の暗号化のあとにホストがプールを書き換えても、復号したページ 0 から読む値は、追い出す前に書いた 7 である。 -/
theorem shared_fresh_spoiled : ∃ m₁ m, Reach Threads.duoConfig demoGcm hostile m ∧
    duoInit.run Threads.duoConfig demoGcm evictMoves = .ok m₁ ∧
    m₁.spoiled.run Threads.duoConfig demoGcm reloadMoves = .ok m ∧
    (reloads m.mem.trace = [0] ∧ readsOf 0 m.mem.trace = [7] ∧ m.mem.randPos = 2) ∧
      Fresh m.mem.trace ∧ Coherent m.mem.trace := by
  obtain ⟨ha₁, m₁, hrun₁, ha, m, hrun, hevents, hforge, hnonce⟩ := duoInit_spoiled
  have hr₁ : Reach Threads.duoConfig demoGcm hostile m₁ := (Reach.init _ _ _ _).run (by decide) ha₁ hrun₁
  have hspoiled : Reach Threads.duoConfig demoGcm hostile m₁.spoiled := hr₁.step (.host _ trivial) hr₁.refs
  have hr := hspoiled.run (by decide) ha hrun
  refine ⟨m₁, m, hr, hrun₁, hrun, hevents, ?_⟩
  exact shared_fresh (by decide) (by decide) demoGcm_inverts hr hforge fun i j hi hj => hnonce i hi j hj

end Eleos.Shared
