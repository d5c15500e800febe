import Eleos.Threads.Lemmas.Progress

/-!
# 複数のスレッドのもとでの安全性
-/

namespace Eleos.Threads

open Eleos.Pager

variable {n : Nat} {cfg : Config} {s : World n}

theorem Inv.init (cfg : Config) : Inv cfg (World.init cfg : World n) := by
  have hzero {g : Thread → Nat} (hg : g ⟨.idle, []⟩ = 0) : tally g (World.init cfg : World n).threads = 0 := by
    simp [tally, World.init, hg]
  have hitems : (World.init cfg : World n).cache.table.items = 0 := by
    simp [World.init, PageCache.init, Table.items]
  have hrefs (p : Int) : (World.init cfg : World n).refs p = 0 := hzero rfl
  have hlist : (World.init cfg : World n).cache.usedPages.toList = [] := rfl
  refine ⟨⟨?_, ⟨Nat.le_refl _, Nat.zero_le _⟩, rfl, rfl, ?_⟩, ?_, ?_, ?_, ?_, ?_, ?_, ?_, ?_, ?_⟩
  · have hpos : 0 < cfg.cacheCapacity * 10 := by
      have := cfg.capacity_pos
      omega
    exact ⟨fun k => Nat.mod_lt _ hpos, fun b x hx => by simp [World.init, PageCache.init] at hx,
      fun b => by simp [World.init, PageCache.init]⟩
  · rw [hitems]; rfl
  · intro p
    rw [hrefs p]
    rfl
  · intro p
    rw [hrefs p]
    exact Nat.zero_le _
  · intro q
    rw [hlist, hitems, hzero (by simp [Thread.hand, Thread.hand?])]
    simp
  · rw [hlist, hitems, hzero (by simp [Thread.hands, Thread.hand?])]
    rfl
  · intro i
    rw [World.places, hitems, hzero (by simp [Thread.hold, Thread.slot?])]
    simp only [World.init, List.count_reverse, Multiset.map_zero, Multiset.count_zero, Nat.add_zero]
    by_cases hi : i < cfg.cacheCapacity
    · rw [if_pos hi]
      exact List.count_eq_one_of_mem List.nodup_range (List.mem_range.mpr hi)
    · rw [if_neg hi]
      exact List.count_eq_zero.mpr fun h => hi (List.mem_range.mp h)
  · rw [hitems, hzero (by simp [Thread.holds, Thread.slot?])]
    simp [World.init]
  · rw [hitems, hzero (by simp [Thread.token])]
    simp
  · rw [hzero (by simp [Thread.evicting])]
    simp
  · intro t
    refine ⟨by simp [World.init], by simp [World.init], by simp [World.init], by simp [World.init], ?_,
      by simp [World.init]⟩
    intro p hp
    simp [World.init, Thread.pin, Pc.pin] at hp

theorem Reach.inv (hn : n ≤ maxNumOfThreadsOptimization) (hcap : 32 ≤ cfg.cacheCapacity) (h : Reach cfg s) :
    Inv cfg s := by
  induction h with
  | init => exact Inv.init cfg
  | step _ hstep hle ih =>
      obtain ⟨c, f, th, heq, hb⟩ := ih.goes hcap hstep
      cases heq
      exact hb.inv hn ih hle

/-- 10 個以下のスレッドのどの交互実行でも、枠はちょうど一つの場所にあり、一つのページの項目は一つだけであり、
つながっている `Aptr` は自分のページの項目の枠を指し、どの遷移も検査で止まらない。 -/
theorem pageCache_safe (hn : n ≤ maxNumOfThreadsOptimization) (hcap : 32 ≤ cfg.cacheCapacity)
    (h : Reach cfg s) :
    (∀ i, s.places i = if i < cfg.cacheCapacity then 1 else 0) ∧
    (s.cache.table.items.map Item.pageIndex).Nodup ∧
    (∀ t, ∀ l ∈ (s.threads t).links, s.cache.get l.1 = some ⟨l.1, l.2⟩) ∧
    ∀ t r, Step cfg s t r → ∃ s', r = .ok s' := by
  have hinv := h.inv hn hcap
  refine ⟨hinv.slots, Table.items_keys_nodup hinv.cache.table, fun t => (hinv.threads t).links, ?_⟩
  intro t r hstep
  obtain ⟨c, f, th, heq, _⟩ := hinv.goes hcap hstep
  exact ⟨_, heq⟩

/-! ## 同じページを読み込む二つのスレッド -/

def duoConfig : Config where
  cacheCapacity := 32
  llcCapacity := 8
  poolPages := 64
  slabPtr := 4096
  capacity_pos := capacity_thirtyTwo
  llc_pos := llc_eight
  poolPages_le := pool_sixtyFour
  slabPtr_ge := slab_page

/-- まだ何もつながっていない状態では、参照は高々スレッドの個数だけある。 -/
theorem refs_le_of_links {s : World 2} (hl : ∀ t, (s.threads t).links = []) (p : Int) : s.refs p ≤ 255 := by
  have hle : s.refs p ≤ 2 := by
    apply tally_le
    intro t
    simp only [Thread.pin, hl t, List.map_nil, List.count_nil, Nat.zero_add]
    cases (s.threads t).pc with
    | idle | inc q => exact Nat.zero_le 1
    | _ =>
        simp only [Pc.pin]
        split <;> omega
  omega

theorem Reach.next {s s' : World 2} {t : Fin 2} (h : Reach duoConfig s) (he : s.advance duoConfig t = .ok s')
    (hl : ∀ t, (s'.threads t).links = []) : Reach duoConfig s' := by
  have hstep : Step duoConfig s t (s.advance duoConfig t) := .advance
  rw [he] at hstep
  exact .step h hstep (refs_le_of_links hl)

theorem Reach.fault {s s' : World 2} {t : Fin 2} (h : Reach duoConfig s) (hpc : (s.threads t).pc = .idle)
    (he : s.start t (.fault none 0) = .ok s') (hl : ∀ t, (s'.threads t).links = []) : Reach duoConfig s' := by
  have hstep : Step duoConfig s t (s.start t (.fault none 0)) := .start _ hpc ⟨by simp, by decide, by decide⟩
  rw [he] at hstep
  exact .step h hstep (refs_le_of_links hl)

/-- 二つのスレッドが別々の枠を手に持ち、同じページを加えようとしている。 -/
theorem exists_duo : ∃ s : World 2, Reach duoConfig s ∧ (s.threads 0).pc = .tryAdd 0 31 ∧
    (s.threads 1).pc = .tryAdd 0 30 := by
  have h₀ : Reach duoConfig (World.init duoConfig : World 2) := .init
  have h₁ := h₀.fault (t := 0) rfl rfl (by decide)
  have h₂ := h₁.fault (t := 1) rfl rfl (by decide)
  have h₃ := h₂.next (t := 0) rfl (by decide)
  have h₄ := h₃.next (t := 0) rfl (by decide)
  have h₅ := h₄.next (t := 0) rfl (by decide)
  have h₆ := h₅.next (t := 1) rfl (by decide)
  have h₇ := h₆.next (t := 1) rfl (by decide)
  have h₈ := h₇.next (t := 1) rfl (by decide)
  have h₉ := h₈.next (t := 0) rfl (by decide)
  have h₁₀ := h₉.next (t := 1) rfl (by decide)
  exact ⟨_, h₁₀, rfl, rfl⟩

theorem pageCache_safe_duo : ∃ s : World 2, Reach duoConfig s ∧ (s.threads 0).pc = .tryAdd 0 31 ∧
    (s.threads 1).pc = .tryAdd 0 30 ∧ s.places 31 = 1 ∧ ∃ s', s.advance duoConfig 1 = .ok s' := by
  obtain ⟨s, hr, h0, h1⟩ := exists_duo
  have hsafe := pageCache_safe (by decide) (by decide) hr
  exact ⟨s, hr, h0, h1, hsafe.1 31, hsafe.2.2.2 1 _ .advance⟩

end Eleos.Threads
