import Eleos.Face.Lemmas.Table

/-!
# `hash_put` の列

置いた値を保つ領域の上で、`hash_put` の列のあとの表は、答えの表である。
-/

namespace Eleos.Face

open Probe

variable {α σ : Type} {store : σ → List UInt8 → Except Stop (σ × α)} {Ready : Nat → σ → Prop}
  {Holds : σ → α → List UInt8 → Prop} {h h' : Hash α} {m m' : σ} {key k : List UInt8} {puts qs : List Put} {p : Put}
  {fuel fuel' r : Nat}

/-- ヒストグラムを置く領域の規則。`Ready n m` は、あと `n` 個を置けることをいう。 -/
structure Storage (store : σ → List UInt8 → Except Stop (σ × α)) (Ready : Nat → σ → Prop)
    (Holds : σ → α → List UInt8 → Prop) : Prop where
  run : ∀ {n m val}, val.length = histogramBytes → Ready (n + 1) m → ∃ m' v, store m val = .ok (m', v) ∧ Ready n m' ∧
    Holds m' v val ∧ ∀ x u, Holds m x u → Holds m' x u

/-- `puts` を入れた表。 -/
structure Filled (Holds : σ → α → List UInt8 → Prop) (m : σ) (h : Hash α) (puts : List Put) : Prop where
  size : h.nbuckets = 1024 * dupNum
  reach : Reach h.nbuckets (fun k => hashFunction k h.nbuckets) h.occ
  keys : ∀ k, (∃ j < h.nbuckets, h.occ j = some k) ↔ k ∈ keysOf puts
  values : ∀ j < h.nbuckets, ∀ k, h.occ j = some k →
    ∃ v u, (h.id j).value = some v ∧ Holds m v u ∧ answer puts k = some u
  nentries : h.nentries = UInt64.ofNat (keysOf puts).dedup.length

theorem Filled.pos (hf : Filled Holds m h puts) : 0 < h.nbuckets := by
  rw [hf.size]
  decide

theorem Filled.init : Filled Holds m hashInit [] where
  size := rfl
  reach := fun _ _ _ hk => nomatch hk
  keys := fun _ => iff_of_false (fun ⟨_, _, hk⟩ => nomatch hk) List.not_mem_nil
  values := fun _ _ _ hk => nomatch hk
  nentries := rfl

/-! ## `hash_get` -/

theorem Filled.get (hf : Filled Holds m h puts) (key : List UInt8) : ∃ r, hashGet h key = .ok r ∧
    (r = none ↔ text key ∉ keysOf puts) ∧ ∀ v, r = some v → ∃ u, Holds m v u ∧ answer puts (text key) = some u := by
  obtain ⟨r, hget, ⟨rfl, hnone⟩ | ⟨j, hj, hjk, rfl⟩⟩ := hashGet_ok hf.pos hf.reach key
  · refine ⟨none, hget, iff_of_true rfl fun hk => ?_, fun v hv => nomatch hv⟩
    obtain ⟨j, hj, hjk⟩ := (hf.keys _).mpr hk
    exact hnone j hj hjk
  · obtain ⟨v, u, hv, hh, hu⟩ := hf.values j hj _ hjk
    refine ⟨_, hget, iff_of_false ?_ ?_, fun v' hv' => ?_⟩
    · rw [hv]
      exact Option.some_ne_none v
    · exact not_not.mpr ((hf.keys _).mp ⟨j, hj, hjk⟩)
    · cases hv.symm.trans hv'
      exact ⟨u, hh, hu⟩

/-! ## `hash_put` -/

/-- 値を入れる位置がある。 -/
theorem Filled.place (hf : Filled Holds m h puts)
    (hroom : text key ∈ keysOf puts ∨ (keysOf puts).dedup.length < h.nbuckets) : ∃ d < h.nbuckets,
      Passed h.nbuckets h.occ (text key) (hashFunction key h.nbuckets) d ∧
        Stops h.occ (text key) (slot h.nbuckets (hashFunction key h.nbuckets) d) := by
  rcases hroom with hk | hlt
  · obtain ⟨j, hj, hjk⟩ := (hf.keys _).mpr hk
    obtain ⟨d, hd, hdj, hp⟩ := hf.reach j hj _ hjk
    simp only [hashFunction_text] at hdj hp
    exact ⟨d, hd, hp, Or.inr (hdj ▸ hjk)⟩
  · have hempty : ∃ j < h.nbuckets, h.occ j = none := by
      by_contra hn
      have hall : ∀ j < h.nbuckets, h.occ j ≠ none := fun j hj he => hn ⟨j, hj, he⟩
      have := (hf.reach.full_iff hf.keys).mp hall
      omega
    obtain ⟨j, hj, he⟩ := hempty
    exact stops_of_empty hj he _ _

/-- 鍵がすでにあり、`override` を立てない `hash_put` は何もしない。 -/
theorem Filled.skip (hf : Filled Holds m h puts) (hk : text p.key ∈ keysOf puts) (ho : p.override = false) :
    Filled Holds m h (puts ++ [p]) where
  size := hf.size
  reach := hf.reach
  keys := fun k => by
    rw [hf.keys k, keysOf_append, List.mem_append]
    refine ⟨Or.inl, ?_⟩
    rintro (hm | hm)
    · exact hm
    · rwa [List.mem_singleton.mp hm]
  values := fun j hj k hjk => by
    obtain ⟨v, u, hv, hh, hu⟩ := hf.values j hj k hjk
    refine ⟨v, u, hv, hh, ?_⟩
    by_cases hpk : text p.key = k
    · rw [← hpk] at hu ⊢
      rw [answer_snoc_keep hk ho, hu]
    · rw [answer_snoc_ne hpk, hu]
  nentries := by
    rw [distinct_snoc_mem hk]
    exact hf.nentries

/-- 位置 `d` に入れたあとの表。 -/
theorem Filled.fill {d : Nat} {v : α} (hf : Filled Holds m h puts) (hd : d < h.nbuckets)
    (hp : Passed h.nbuckets h.occ (text p.key) (hashFunction p.key h.nbuckets) d)
    (hs : Stops h.occ (text p.key) (slot h.nbuckets (hashFunction p.key h.nbuckets) d))
    (hnew : ¬ (text p.key ∈ keysOf puts ∧ p.override = false)) (hv : Holds m' v p.val)
    (hkeep : ∀ x u, Holds m x u → Holds m' x u) (n : UInt64)
    (hn : n = UInt64.ofNat (keysOf (puts ++ [p])).dedup.length) :
    Filled Holds m' { h with
      id := Function.update h.id (slot h.nbuckets (hashFunction p.key h.nbuckets) d) ⟨strncpy 40 p.key, some v⟩
      totalSize := h.totalSize + UInt64.ofNat histogramBytes
      nentries := n } (puts ++ [p]) := by
  have hcopy : text (strncpy 40 p.key) = text p.key := text_strncpy (Nat.le_of_lt (text_length_lt p.short))
  have hslot := slot_lt (a := hashFunction p.key h.nbuckets) (d := d) hf.pos
  generalize hj : slot h.nbuckets (hashFunction p.key h.nbuckets) d = j at *
  have hocc : Hash.occ { h with
      id := Function.update h.id j ⟨strncpy 40 p.key, some v⟩
      totalSize := h.totalSize + UInt64.ofNat histogramBytes
      nentries := n } = Function.update h.occ j (some (text p.key)) := by
    funext i
    by_cases hi : i = j
    · rw [hi, Function.update_self, ← hcopy]
      exact congrArg Entry.text? (Function.update_self j _ h.id)
    · rw [Function.update_of_ne hi]
      exact congrArg Entry.text? (Function.update_of_ne hi _ _)
  have hreach : Reach h.nbuckets (fun k => hashFunction k h.nbuckets) (Function.update h.occ j (some (text p.key))) := by
    rw [← hj, show hashFunction p.key h.nbuckets = hashFunction (text p.key) h.nbuckets from hashFunction_text.symm]
    refine hf.reach.insert hd ?_ ?_
    · rw [hashFunction_text]
      exact hp
    · rw [hashFunction_text, hj]
      exact hs
  refine ⟨hf.size, by rw [hocc]; exact hreach, fun k => ?_, fun i hi k hik => ?_, hn⟩
  · rw [hocc, keysOf_append, List.mem_append, ← hf.keys k]
    exact (exists_update_iff hslot hs).trans (or_congr_right List.mem_singleton.symm)
  · rw [hocc] at hik
    by_cases hij : i = j
    · rw [hij, Function.update_self] at hik
      cases hik
      refine ⟨v, p.val, ?_, hv, ?_⟩
      · dsimp only
        rw [hij, Function.update_self]
      · by_cases hk : text p.key ∈ keysOf puts
        · exact answer_snoc_override (Bool.eq_true_of_not_eq_false fun ho => hnew ⟨hk, ho⟩)
        · exact answer_snoc_new hk
    · -- 鍵の位置は一つなので、ほかの位置の鍵は異なる。
      have hne : text p.key ≠ k := by
        rintro rfl
        exact hij (hreach.unique hi hslot hik (Function.update_self ..))
      rw [Function.update_of_ne hij] at hik
      obtain ⟨v', u, hv', hh, hu⟩ := hf.values i hi k hik
      refine ⟨v', u, ?_, hkeep _ _ hh, ?_⟩
      · dsimp only
        rw [Function.update_of_ne hij]
        exact hv'
      · rw [answer_snoc_ne hne, hu]

theorem Filled.put (hS : Storage store Ready Holds) (hf : Filled Holds m h puts) (p : Put) (hfuel : h.nbuckets ≤ fuel)
    (hroom : text p.key ∈ keysOf puts ∨ (keysOf puts).dedup.length < h.nbuckets)
    (hr : Ready ((if text p.key ∈ keysOf puts ∧ p.override = false then 0 else 1) + r) m) : ∃ m' h',
      hashPut store fuel m h p.key p.val p.override = .ok (m', h') ∧ Filled Holds m' h' (puts ++ [p]) ∧ Ready r m' := by
  obtain ⟨old, hget, hnull, -⟩ := hf.get p.key
  by_cases hkeep : text p.key ∈ keysOf puts ∧ p.override = false
  · rw [if_pos hkeep, Nat.zero_add] at hr
    have hsome : old.isSome = true := by
      rw [Option.isSome_iff_ne_none]
      exact fun hn => hnull.mp hn hkeep.1
    refine ⟨m, h, bind_ok_iff.mpr ⟨old, hget, ?_⟩, hf.skip hkeep.1 hkeep.2, hr⟩
    exact if_pos ⟨hsome, hkeep.2⟩
  · rw [if_neg hkeep, Nat.add_comm] at hr
    obtain ⟨d, hd, hp, hs⟩ := hf.place hroom
    obtain ⟨m', v, hstore, hr', hv, hkeep'⟩ := hS.run p.size hr
    have hhash : hashFunction p.key h.nbuckets < h.nbuckets := hashFunction_lt hf.pos
    have hcond : ¬ (old.isSome ∧ p.override = false) := by
      rintro ⟨hsome, ho⟩
      refine hkeep ⟨?_, ho⟩
      by_contra hk
      rw [hnull.mpr hk] at hsome
      cases hsome
    by_cases hk : text p.key ∈ keysOf puts
    · have hsome : old.isSome = true := by
        rw [Option.isSome_iff_ne_none]
        exact fun hn => hnull.mp hn hk
      have hloop := hashPutLoop_ok (h := { h with nentries := h.nentries - 1 }) hhash hd hfuel hp hs
      refine ⟨m', _, bind_ok_iff.mpr ⟨old, hget, ?_⟩, hf.fill hd hp hs hkeep hv hkeep' (h.nentries - 1 + 1) ?_, hr'⟩
      · rw [if_neg hcond, if_pos hsome]
        exact bind_ok_iff.mpr ⟨_, hloop, bind_ok_iff.mpr ⟨_, hstore, rfl⟩⟩
      · rw [UInt64.sub_add_cancel, hf.nentries, distinct_snoc_mem hk]
    · have hsome : ¬ old.isSome = true := by
        rw [hnull.mpr hk]
        exact Bool.false_ne_true
      have hloop := hashPutLoop_ok (h := h) hhash hd hfuel hp hs
      refine ⟨m', _, bind_ok_iff.mpr ⟨old, hget, ?_⟩, hf.fill hd hp hs hkeep hv hkeep' (h.nentries + 1) ?_, hr'⟩
      · rw [if_neg hcond, if_neg hsome]
        exact bind_ok_iff.mpr ⟨_, hloop, bind_ok_iff.mpr ⟨_, hstore, rfl⟩⟩
      · rw [hf.nentries, distinct_snoc_new hk, UInt64.ofNat_add]
        rfl

/-- 一杯の表に新しい鍵を入れる `hash_put` は終わらない。 -/
theorem Filled.put_spin (hf : Filled Holds m h puts) (p : Put) (hk : text p.key ∉ keysOf puts)
    (hfull : h.nbuckets ≤ (keysOf puts).dedup.length) :
    hashPut store fuel m h p.key p.val p.override = .error .spin := by
  obtain ⟨old, hget, hnull, -⟩ := hf.get p.key
  have hnone := hnull.mpr hk
  subst hnone
  have heq : (keysOf puts).dedup.length = h.nbuckets := Nat.le_antisymm (hf.reach.length_le hf.keys) hfull
  have hocc : ∀ j < h.nbuckets, ∃ k, h.occ j = some k ∧ k ≠ text p.key := by
    intro j hj
    obtain ⟨k, hjk⟩ := Option.ne_none_iff_exists'.mp ((hf.reach.full_iff hf.keys).mpr heq j hj)
    refine ⟨k, hjk, ?_⟩
    rintro rfl
    exact hk ((hf.keys _).mp ⟨j, hj, hjk⟩)
  have hspin : hashPutLoop h p.key fuel (hashFunction p.key h.nbuckets) = .error .spin :=
    hashPutLoop_spin hf.pos hocc (hashFunction_lt hf.pos)
  unfold hashPut
  rw [hget]
  dsimp only [bind, Except.bind]
  rw [if_neg (fun hc => nomatch hc.1)]
  rw [if_neg (fun hs => nomatch hs), hspin]

/-! ## 列 -/

theorem mallocs_append : mallocs puts (qs ++ [p]) =
    mallocs puts qs + if text p.key ∈ keysOf (puts ++ qs) ∧ p.override = false then 0 else 1 := by
  induction qs generalizing puts with
  | nil => rw [List.nil_append, List.append_nil, mallocs, mallocs, mallocs, Nat.add_zero, Nat.zero_add]
  | cons q qs ih => rw [List.cons_append, mallocs, mallocs, ih, List.append_cons puts q qs, Nat.add_assoc]

theorem distinct_le_length : (keysOf puts).dedup.length ≤ puts.length :=
  (List.dedup_sublist _).length_le.trans_eq (List.length_map _)

theorem mallocs_le : mallocs puts qs ≤ qs.length := by
  induction qs generalizing puts with
  | nil => exact Nat.le_refl 0
  | cons q qs ih =>
      have hq : mallocs (puts ++ [q]) qs ≤ qs.length := ih
      rw [mallocs, List.length_cons]
      split
      · omega
      · omega

theorem Filled.run (hS : Storage store Ready Holds) (hf : Filled Holds m h puts) (hfuel : 1024 * dupNum ≤ fuel)
    (hroom : (keysOf (puts ++ qs)).dedup.length ≤ 1024 * dupNum) (hr : Ready (mallocs puts qs + r) m) : ∃ m' h',
      hashPuts store fuel qs (m, h) = .ok (m', h') ∧ Filled Holds m' h' (puts ++ qs) ∧ Ready r m' := by
  induction qs generalizing puts m h with
  | nil =>
      rw [List.append_nil]
      rw [mallocs, Nat.zero_add] at hr
      exact ⟨m, h, rfl, hf, hr⟩
  | cons p qs ih =>
      have hassoc : puts ++ p :: qs = (puts ++ [p]) ++ qs := List.append_cons puts p qs
      have hplace : text p.key ∈ keysOf puts ∨ (keysOf puts).dedup.length < h.nbuckets := by
        by_cases hk : text p.key ∈ keysOf puts
        · exact Or.inl hk
        · have h₁ := distinct_snoc_new hk
          have h₂ : (keysOf (puts ++ [p])).dedup.length ≤ (keysOf (puts ++ [p] ++ qs)).dedup.length := distinct_le
          rw [← hassoc] at h₂
          rw [hf.size]
          omega
      rw [mallocs, Nat.add_assoc] at hr
      have hfuel' : h.nbuckets ≤ fuel := hf.size.trans_le hfuel
      obtain ⟨m₁, h₁, hput, hf₁, hr₁⟩ := hf.put hS p hfuel' hplace hr
      rw [hassoc] at hroom ⊢
      obtain ⟨m₂, h₂, hrun, hf₂, hr₂⟩ := ih hf₁ hroom hr₁
      exact ⟨m₂, h₂, bind_ok_iff.mpr ⟨_, hput, hrun⟩, hf₂, hr₂⟩

/-! ## 終わった列 -/

theorem hashPut_mono {d : Nat} {val : List UInt8} {o : Bool} {x : σ × Hash α}
    (hput : hashPut store fuel m h key val o = .ok x) : hashPut store (fuel + d) m h key val o = .ok x := by
  obtain ⟨old, hget, hput⟩ := bind_ok_iff.mp hput
  refine bind_ok_iff.mpr ⟨old, hget, ?_⟩
  split
  · rename_i hc
    rwa [if_pos hc] at hput
  · rename_i hc
    rw [if_neg hc] at hput
    obtain ⟨idx, hloop, hput⟩ := bind_ok_iff.mp hput
    exact bind_ok_iff.mpr ⟨idx, hashPutLoop_mono hloop, hput⟩

/-- `hash_put` が終わるのは、鍵がすでにあるか、異なる鍵が `nbuckets` 個より少ないとき、かつそのときに限る。 -/
theorem Filled.put_iff (hS : Storage store Ready Holds) (hf : Filled Holds m h puts) (p : Put)
    (hr : Ready ((if text p.key ∈ keysOf puts ∧ p.override = false then 0 else 1) + r) m) :
    (∃ fuel x, hashPut store fuel m h p.key p.val p.override = .ok x) ↔
      text p.key ∈ keysOf puts ∨ (keysOf puts).dedup.length < 1024 * dupNum := by
  constructor
  · rintro ⟨fuel, x, hput⟩
    by_contra hc
    rw [not_or, Nat.not_lt, ← hf.size] at hc
    rw [hf.put_spin p hc.1 hc.2] at hput
    cases hput
  · intro hroom
    rw [← hf.size] at hroom
    obtain ⟨m', h', hput, -, -⟩ := hf.put hS p (Nat.le_refl _) hroom hr
    exact ⟨_, _, hput⟩

/-- 列が終わったなら、結果は答えの表である。 -/
theorem Filled.of_run (hS : Storage store Ready Holds) (hf : Filled Holds m h puts)
    (hr : Ready (mallocs puts qs + r) m) (hrun : hashPuts store fuel qs (m, h) = .ok (m', h')) :
    Filled Holds m' h' (puts ++ qs) ∧ Ready r m' := by
  induction qs generalizing puts m h with
  | nil =>
      cases hrun
      rw [List.append_nil]
      rw [mallocs, Nat.zero_add] at hr
      exact ⟨hf, hr⟩
  | cons p qs ih =>
      obtain ⟨⟨m₁, h₁⟩, hput, hrun⟩ := bind_ok_iff.mp hrun
      rw [mallocs, Nat.add_assoc] at hr
      have hroom := (hf.put_iff hS p hr).mp ⟨fuel, _, hput⟩
      rw [← hf.size] at hroom
      obtain ⟨m₂, h₂, hput', hf₁, hr₁⟩ := hf.put hS p (Nat.le_add_left h.nbuckets fuel) hroom hr
      cases (hashPut_mono hput).symm.trans hput'
      rw [List.append_cons]
      exact ih hf₁ hr₁ hrun

end Eleos.Face
