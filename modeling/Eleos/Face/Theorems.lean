import Eleos.Face.Lemmas.Store
import Eleos.Libc.Theorems

/-!
# 顔認証サーバのデータベースの性質

信頼側の表も非信頼側の表も、鍵から最後に入れたヒストグラムへの有限写像である。`hash_put` は、表が一杯で鍵が新しいときだけ終わらない。
-/

namespace Eleos.Face

open Pager Libc

variable {cfg : Config} {G : Gcm} {malloc : Nat → Int} {s : Sys} {puts : List Put} {p : Put} {fuel : Nat}
  {w : Trusted.World} {h : Hash Int}

theorem Trusted.standing (hG : G.Correct) (hs : Session cfg G s) (hroom : ∀ q, RoomFor cfg s [q]) (n : Nat) :
    Trusted.Standing cfg G n n ⟨s, 0⟩ := ⟨hs.ready hG, hroom, by
  show 0 + n ≤ n
  rw [Nat.zero_add]⟩

theorem Trusted.run_ok (hG : G.Correct) (hs : Session cfg G s) (hroom : ∀ q, RoomFor cfg s [q])
    (hb : Trusted.Blocks cfg malloc (mallocs [] puts)) (hfew : (keysOf puts).dedup.length ≤ 1024 * dupNum)
    (hfuel : 1024 * dupNum ≤ fuel) : ∃ w h, Trusted.hashPuts cfg G malloc fuel puts s = .ok (w, h) ∧
      Filled (Trusted.Holds malloc) w h puts ∧ Trusted.Standing cfg G (mallocs [] puts) 0 w :=
  Filled.run (r := 0) (Trusted.storage hG hb) .init hfuel hfew (Trusted.standing hG hs hroom _)

/-- どの `hash_put` の列についても、異なる鍵が `nbuckets` 個より少なければ、二つの表は同じ答えを返し、入れた値が読める。 -/
theorem database_map (hG : G.Correct) (hs : Session cfg G s) (hroom : ∀ q, RoomFor cfg s [q])
    (hb : Trusted.Blocks cfg malloc (mallocs [] puts)) (hfew : (keysOf puts).dedup.length < 1024 * dupNum)
    (hfuel : 1024 * dupNum ≤ fuel) : ∃ w h heap h',
      Trusted.hashPuts cfg G malloc fuel puts s = .ok (w, h) ∧ Untrusted.hashPuts fuel puts = .ok (heap, h') ∧
      h.nentries.toNat = (keysOf puts).dedup.length ∧ h'.nentries.toNat = (keysOf puts).dedup.length ∧
      ∀ key, ∃ r r', hashGet h key = .ok r ∧ hashGet h' key = .ok r' ∧ (r = none ↔ text key ∉ keysOf puts) ∧
        (∀ x, r = some x → ∀ hist, hist.length = histogramBytes → ∃ s' u,
          Trusted.load cfg G w.sys hist x = .ok (s', u) ∧ answer puts (text key) = some u) ∧
        r'.bind (fun x => heap[x]?) = answer puts (text key) := by
  obtain ⟨w, h, hrun, hf, hst⟩ := Trusted.run_ok hG hs hroom hb (Nat.le_of_lt hfew) hfuel
  obtain ⟨heap, h', hrun', hf', -⟩ := Filled.run (m := []) (r := 0) Untrusted.storage .init hfuel (Nat.le_of_lt hfew) trivial
  rw [List.nil_append] at hf'
  have hcount : (UInt64.ofNat (keysOf puts).dedup.length).toNat = (keysOf puts).dedup.length :=
    UInt64.toNat_ofNat_of_lt' (Nat.lt_trans hfew (by decide))
  refine ⟨w, h, heap, h', hrun, hrun', by rw [hf.nentries, hcount], by rw [hf'.nentries, hcount], fun key => ?_⟩
  obtain ⟨r, hget, hnull, hval⟩ := hf.get key
  obtain ⟨r', hget', hnull', hval'⟩ := hf'.get key
  refine ⟨r, r', hget, hget', hnull, fun x hx hist hhist => ?_, ?_⟩
  · obtain ⟨u, ⟨⟨k, hk, rfl⟩, hsize, hbytes⟩, hu⟩ := hval x hx
    have hpool := hb.range k (Nat.lt_of_lt_of_le hk hst.left)
    obtain ⟨s', hload, -⟩ := Trusted.load_ok hG hst.ready hst.room hpool hsize hbytes hhist
    exact ⟨s', u, hload, hu⟩
  · cases r' with
    | none => exact (answer_eq_none_iff.mpr (hnull'.mp rfl)).symm
    | some x =>
        obtain ⟨u, hu, hans⟩ := hval' x rfl
        exact hu.trans hans.symm

/-- 要求をどう並べても、比べるヒストグラムはその鍵の答えである。 -/
theorem Trusted.doOnes_ok {keys : List (List UInt8)} {hist : List UInt8} {t : Sys} (hG : G.Correct)
    (hb : Trusted.Blocks cfg malloc w.calls) (hf : Filled (Trusted.Holds malloc) w h puts) (hr : Ready cfg G t)
    (hroom : ∀ q, RoomFor cfg t [q]) (hlast : lastWrite t.state.trace = lastWrite w.sys.state.trace)
    (hhist : hist.length = histogramBytes) : ∃ t', Trusted.doOnes cfg G h keys t hist =
      .ok (t', keys.map fun key => (answer puts (text key)).getD (List.replicate histogramBytes 0)) := by
  induction keys generalizing t hist with
  | nil => exact ⟨t, rfl⟩
  | cons key keys ih =>
      obtain ⟨r, hget, hnull, hval⟩ := hf.get key
      cases r with
      | none =>
          have hans := answer_eq_none_iff.mpr (hnull.mp rfl)
          obtain ⟨t', hrest⟩ := ih hr hroom hlast hhist
          refine ⟨t', bind_ok_iff.mpr ⟨_, bind_ok_iff.mpr ⟨_, hget, rfl⟩, bind_ok_iff.mpr ⟨_, hrest, ?_⟩⟩⟩
          rw [List.map_cons, hans]
          rfl
      | some x =>
          obtain ⟨u, ⟨⟨k, hk, rfl⟩, hsize, hbytes⟩, hans⟩ := hval x rfl
          obtain ⟨t₁, hload, hret⟩ := Trusted.load_ok hG hr hroom (hb.range k hk) hsize (by rw [hlast]; exact hbytes) hhist
          obtain ⟨t', hrest⟩ := ih hret.ready (fun q => (hroom q).congr hret.linked) (hret.last.trans hlast) hsize
          refine ⟨t', bind_ok_iff.mpr ⟨_, bind_ok_iff.mpr ⟨_, hget, bind_ok_iff.mpr ⟨_, hload, rfl⟩⟩,
            bind_ok_iff.mpr ⟨_, hrest, ?_⟩⟩⟩
          rw [List.map_cons, hans]
          rfl

/-- どの到達した表についても、`hash_get` は必ず終わり、`hash_put` は、鍵がすでにあるか、異なる鍵が `nbuckets` 個より少ないとき、
かつそのときに限って終わる。 -/
theorem put_terminates_iff (hG : G.Correct) (hs : Session cfg G s) (hroom : ∀ q, RoomFor cfg s [q])
    (hb : Trusted.Blocks cfg malloc (mallocs [] (puts ++ [p])))
    (hrun : Trusted.hashPuts cfg G malloc fuel puts s = .ok (w, h)) : (∀ key, ∃ r, hashGet h key = .ok r) ∧
      ((∃ fuel x, Trusted.hashPut cfg G malloc fuel w h p.key p.val p.override = .ok x) ↔
        text p.key ∈ keysOf puts ∨ (keysOf puts).dedup.length < 1024 * dupNum) := by
  have hst := Trusted.standing hG hs hroom (mallocs [] (puts ++ [p]))
  rw [mallocs_append] at hst hb
  obtain ⟨hf, hr⟩ := Filled.of_run (Trusted.storage hG hb) .init hst hrun
  rw [List.nil_append] at hf hr
  refine ⟨fun key => ?_, hf.put_iff (r := 0) (Trusted.storage hG hb) p hr⟩
  obtain ⟨r, hget, -⟩ := hf.get key
  exact ⟨r, hget⟩

/-! ## 二つの表の例 -/

/-- 2048 個のブロックの入るプールの構成。 -/
def faceConfig : Config where
  cacheCapacity := 13
  llcCapacity := 8
  poolPages := 131072
  slabPtr := 4096
  capacity_pos := capacity_thirteen
  llc_pos := llc_eight
  poolPages_le := pool_large
  slabPtr_ge := slab_page

def faceInit : Sys :=
  Sys.init faceConfig (fun _ => 0) (fun _ => 0) (Vector.replicate 16 0) fun k => Vector.replicate 12 (UInt8.ofNat k)

theorem faceInit_room (q : Int) : RoomFor faceConfig faceInit [q] :=
  roomFor_few (m := 1) (n := 0) rfl rfl (by decide) (by decide)

/-- 大きさ 262144 のブロックを順に返す。 -/
def faceMalloc (k : Nat) : Int := k * 262144

theorem faceMalloc_blocks {n : Nat} (hn : n ≤ 2048) : Trusted.Blocks faceConfig faceMalloc n where
  range := by
    intro k hk
    refine ⟨?_, ?_⟩
    · unfold faceMalloc
      omega
    · show (k : Int) * 262144 + (237568 : Nat) ≤ (131072 : Nat) * (4096 : Nat)
      omega
  fresh := by
    intro j hj k hk hne
    unfold faceMalloc histogramBytes
    omega

/-- 四桁の十進の数字の並び。 -/
def decimal (n : Nat) : List UInt8 :=
  [n / 1000 % 10, n / 100 % 10, n / 10 % 10, n % 10].map fun d => UInt8.ofNat (48 + d)

/-- 名前が番号 `n` で、どのバイトも `v` であるヒストグラムを持つ人。 -/
def person (n : Nat) (v : UInt8) : Identity := ⟨decimal n, List.replicate histogramBytes v, List.length_replicate⟩

/-- 二人を入れたあと、一人目の一つの鍵に入れ直す。 -/
def facePuts : List Put := populate [person 1 1, person 2 2] ++ [{ (person 1 3).put 0 with override := true }]

theorem database_map_demo : ∃ w h heap h',
    Trusted.hashPuts faceConfig demoGcm faceMalloc 2048 facePuts faceInit = .ok (w, h) ∧
    Untrusted.hashPuts 2048 facePuts = .ok (heap, h') ∧ h.nentries.toNat = (keysOf facePuts).dedup.length ∧
    h'.nentries.toNat = (keysOf facePuts).dedup.length ∧ ∀ key, ∃ r r', hashGet h key = .ok r ∧ hashGet h' key = .ok r' ∧
      (r = none ↔ text key ∉ keysOf facePuts) ∧
      (∀ x, r = some x → ∀ hist, hist.length = histogramBytes → ∃ s' u,
        Trusted.load faceConfig demoGcm w.sys hist x = .ok (s', u) ∧ answer facePuts (text key) = some u) ∧
      r'.bind (fun x => heap[x]?) = answer facePuts (text key) :=
  database_map demoGcm_correct ⟨_, _, _, _, .refl⟩ faceInit_room (faceMalloc_blocks (mallocs_le.trans (by decide)))
    (distinct_le_length.trans_lt (by decide)) (by decide)

/-- 二人を入れたあと、三人目の最初の鍵を入れる。 -/
theorem put_terminates_iff_demo : ∃ w h,
    Trusted.hashPuts faceConfig demoGcm faceMalloc 2048 facePuts faceInit = .ok (w, h) ∧
    (∀ key, ∃ r, hashGet h key = .ok r) ∧
    ((∃ fuel x, Trusted.hashPut faceConfig demoGcm faceMalloc fuel w h ((person 3 5).put 0).key ((person 3 5).put 0).val
      ((person 3 5).put 0).override = .ok x) ↔
      text ((person 3 5).put 0).key ∈ keysOf facePuts ∨ (keysOf facePuts).dedup.length < 1024 * dupNum) := by
  have hs : Session faceConfig demoGcm faceInit := ⟨_, _, _, _, .refl⟩
  have hb : Trusted.Blocks faceConfig faceMalloc (mallocs [] facePuts) := faceMalloc_blocks (mallocs_le.trans (by decide))
  have hfew : (keysOf facePuts).dedup.length ≤ 1024 * dupNum := distinct_le_length.trans (by decide)
  obtain ⟨w, h, hrun, -, -⟩ := Trusted.run_ok demoGcm_correct hs faceInit_room hb hfew (Nat.le_refl _)
  exact ⟨w, h, hrun, put_terminates_iff demoGcm_correct hs faceInit_room
    (faceMalloc_blocks (mallocs_le.trans (by decide))) hrun⟩

/-! ## 一杯になる表 -/

theorem digit_toNat {d : Nat} (hd : d < 10) : (UInt8.ofNat (48 + d)).toNat = 48 + d := by
  rw [UInt8.toNat_ofNat']
  exact Nat.mod_eq_of_lt (by omega)

theorem digit_inj {d e : Nat} (hd : d < 10) (he : e < 10) (h : UInt8.ofNat (48 + d) = UInt8.ofNat (48 + e)) : d = e := by
  have := congrArg UInt8.toNat h
  rw [digit_toNat hd, digit_toNat he] at this
  omega

theorem digit_ne {d : Nat} (hd : d < 10) : UInt8.ofNat (48 + d) ≠ 0 := by
  intro h0
  have := congrArg UInt8.toNat h0
  rw [digit_toNat hd] at this
  simp at this

theorem decimal_inj {m n : Nat} (hm : m < 10000) (hn : n < 10000) (h : decimal m = decimal n) : m = n := by
  obtain ⟨h₁, h⟩ := List.cons.inj h
  obtain ⟨h₂, h⟩ := List.cons.inj h
  obtain ⟨h₃, h⟩ := List.cons.inj h
  have e₁ := digit_inj (Nat.mod_lt _ (by decide)) (Nat.mod_lt _ (by decide)) h₁
  have e₂ := digit_inj (Nat.mod_lt _ (by decide)) (Nat.mod_lt _ (by decide)) h₂
  have e₃ := digit_inj (Nat.mod_lt _ (by decide)) (Nat.mod_lt _ (by decide)) h₃
  have e₄ := digit_inj (Nat.mod_lt _ (by decide)) (Nat.mod_lt _ (by decide)) (List.cons.inj h).1
  omega

theorem decimal_ne {n : Nat} : ∀ c ∈ decimal n, c ≠ 0 := by
  intro c hc
  obtain ⟨d, hd, rfl⟩ := List.mem_map.mp hc
  simp only [List.mem_cons, List.not_mem_nil, or_false] at hd
  exact digit_ne (by omega)

theorem text_append {l : List UInt8} (h : ∀ c ∈ l, c ≠ 0) (r : List UInt8) : text (l ++ r) = l ++ text r :=
  List.takeWhile_append_of_pos fun c hc => decide_eq_true (h c hc)

/-- 番号 `n` の人の `x` 番目の鍵。 -/
theorem text_key {n x : Nat} {v : UInt8} (hx : x < 10) :
    text ((person n v).put x).key = decimal n ++ [UInt8.ofNat (48 + x)] := by
  have hname : text (decimal n) = decimal n := by
    have := text_append (decimal_ne (n := n)) []
    rwa [List.append_nil, show text [] = [] from rfl, List.append_nil] at this
  have hshort : (decimal n ++ [UInt8.ofNat (48 + x)]).length ≤ 39 := Nat.le_of_ble_eq_true rfl
  show text (dupKey (decimal n) x) = _
  unfold dupKey
  rw [hname, List.take_of_length_le hshort, text_append, text_cons_zero, List.append_nil]
  intro c hc
  rcases List.mem_append.mp hc with hc | hc
  · exact decimal_ne c hc
  · rw [List.mem_singleton.mp hc]
    exact digit_ne hx

theorem text_key_inj {m n x y : Nat} {u v : UInt8} (hm : m < 10000) (hn : n < 10000) (hx : x < 10) (hy : y < 10)
    (h : text ((person m u).put x).key = text ((person n v).put y).key) : m = n ∧ x = y := by
  rw [text_key hx, text_key hy] at h
  obtain ⟨hname, hlast⟩ := List.append_inj' h rfl
  exact ⟨decimal_inj hm hn hname, digit_inj hx hy (List.cons.inj hlast).1⟩

/-- 番号が 1 から `n` までの人。 -/
def crowd (n : Nat) : List Identity := (List.range n).map fun i => person (i + 1) 0

theorem populate_crowd_succ (n : Nat) :
    populate (crowd (n + 1)) = populate (crowd n) ++ [(person (n + 1) 0).put 0] ++ [(person (n + 1) 0).put 1] := by
  unfold populate crowd
  rw [List.range_succ, List.map_append, List.flatMap_append, List.append_assoc]
  rfl

theorem populate_crowd_length (n : Nat) : (populate (crowd n)).length = 2 * n := by
  induction n with
  | zero => rfl
  | succ n ih =>
      rw [populate_crowd_succ, List.length_append, List.length_append, ih]
      rfl

theorem crowd_new {m n x : Nat} (hn : m ≤ n) (hn' : n < 9999) (hx : x < 10) :
    text ((person (n + 1) 0).put x).key ∉ keysOf (populate (crowd m)) := by
  intro hmem
  obtain ⟨p, hp, hkey⟩ := List.mem_map.mp hmem
  obtain ⟨i, hi, hp⟩ := List.mem_flatMap.mp hp
  obtain ⟨k, hk, rfl⟩ := List.mem_map.mp hi
  obtain ⟨y, hy, rfl⟩ := List.mem_map.mp hp
  have hk' := List.mem_range.mp hk
  have hy' : y < 2 := List.mem_range.mp hy
  obtain ⟨heq, -⟩ := text_key_inj (by omega) (by omega) (by omega) hx hkey
  omega

theorem crowd_distinct {n : Nat} (hn : n < 9999) : (keysOf (populate (crowd n))).dedup.length = 2 * n := by
  induction n with
  | zero => rfl
  | succ n ih =>
      have h₀ := crowd_new (m := n) (x := 0) (Nat.le_refl n) (by omega) (by decide)
      have h₁ : text ((person (n + 1) 0).put 1).key ∉ keysOf (populate (crowd n) ++ [(person (n + 1) 0).put 0]) := by
        rw [keysOf_append, List.mem_append, not_or]
        refine ⟨crowd_new (Nat.le_refl n) (by omega) (by decide), fun hmem => ?_⟩
        obtain ⟨-, heq⟩ := text_key_inj (by omega) (by omega) (by decide) (by decide) (List.mem_singleton.mp hmem)
        cases heq
      rw [populate_crowd_succ, distinct_snoc_new h₁, distinct_snoc_new h₀, ih (by omega)]
      omega

/-- 1024 人を入れた表は一杯であり、1025 人目の `hash_put` は終わらない。 -/
theorem populate_spin : ∃ w h,
    Trusted.hashPuts faceConfig demoGcm faceMalloc 2048 (populate (crowd 1024)) faceInit = .ok (w, h) ∧
    ∀ fuel, Trusted.hashPut faceConfig demoGcm faceMalloc fuel w h ((person 1025 0).put 0).key ((person 1025 0).put 0).val
      ((person 1025 0).put 0).override = .error .spin := by
  have hs : Session faceConfig demoGcm faceInit := ⟨_, _, _, _, .refl⟩
  have hdistinct := crowd_distinct (n := 1024) (by decide)
  obtain ⟨w, h, hrun, hf, -⟩ := Trusted.run_ok demoGcm_correct hs faceInit_room
    (faceMalloc_blocks (mallocs_le.trans (populate_crowd_length 1024).le)) hdistinct.le (Nat.le_refl _)
  refine ⟨w, h, hrun, fun fuel => hf.put_spin _ (crowd_new (Nat.le_refl 1024) (by decide) (by decide)) ?_⟩
  rw [hf.size, hdistinct]
  decide

end Eleos.Face
