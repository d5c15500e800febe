import Eleos.Face.Lemmas.Text
import Eleos.Lib.Probe

/-!
# 表の不変条件

どの鍵も空きに至る前に見つかるという条件のもとで、`hash_get` は入れた値を返す。`hash_put` は、空きがあるか鍵がすでにあれば終わり、
条件を保つ。ヒストグラムを置く部分については、置いた値が残ることだけを使う。
-/

namespace Eleos.Face

open Probe

variable {α σ : Type} {h : Hash α} {m : σ} {key k : List UInt8} {puts : List Put} {p : Put}
  {fuel hash n d j r : Nat}

/-! ## 答え -/

theorem putsOf_append : putsOf (puts ++ [p]) k = putsOf puts k ++ if text p.key = k then [p] else [] := by
  unfold putsOf
  rw [List.filter_append]
  by_cases hk : text p.key = k
  · rw [if_pos hk, List.filter_cons_of_pos (by simpa using hk), List.filter_nil]
  · rw [if_neg hk, List.filter_cons_of_neg (by simpa using hk), List.filter_nil]

theorem putsOf_eq_nil_iff : putsOf puts k = [] ↔ k ∉ keysOf puts := by
  unfold putsOf keysOf
  simp [List.filter_eq_nil_iff]

theorem answer_eq_none_iff : answer puts k = none ↔ k ∉ keysOf puts := by
  rw [← putsOf_eq_nil_iff]
  unfold answer
  cases putsOf puts k with
  | nil => exact iff_of_true rfl rfl
  | cons p ps => exact iff_of_false (fun h => nomatch h) (fun h => nomatch h)

theorem answer_snoc_ne (hk : text p.key ≠ k) : answer (puts ++ [p]) k = answer puts k := by
  unfold answer
  rw [putsOf_append, if_neg hk, List.append_nil]

theorem answer_snoc_new (hk : text p.key ∉ keysOf puts) : answer (puts ++ [p]) (text p.key) = some p.val := by
  unfold answer
  rw [putsOf_append, if_pos rfl, putsOf_eq_nil_iff.mpr hk]
  rfl

theorem answer_snoc_override (ho : p.override = true) : answer (puts ++ [p]) (text p.key) = some p.val := by
  unfold answer
  rw [putsOf_append, if_pos rfl]
  cases putsOf puts (text p.key) with
  | nil => rfl
  | cons q qs =>
      show some (((qs ++ [p]).filter Put.override).getLast?.getD q).val = _
      rw [List.filter_append, List.filter_cons_of_pos ho, List.filter_nil, List.getLast?_concat]
      rfl

theorem answer_snoc_keep (hk : text p.key ∈ keysOf puts) (ho : p.override = false) :
    answer (puts ++ [p]) (text p.key) = answer puts (text p.key) := by
  have hne : putsOf puts (text p.key) ≠ [] := fun h => putsOf_eq_nil_iff.mp h hk
  unfold answer
  rw [putsOf_append, if_pos rfl]
  cases hq : putsOf puts (text p.key) with
  | nil => exact absurd hq hne
  | cons q qs =>
      show some (((qs ++ [p]).filter Put.override).getLast?.getD q).val = some ((qs.filter Put.override).getLast?.getD q).val
      rw [List.filter_append, List.filter_cons_of_neg (by rw [ho]; decide), List.filter_nil, List.append_nil]

/-! ## 鍵の個数 -/

theorem keysOf_append {qs : List Put} : keysOf (puts ++ qs) = keysOf puts ++ keysOf qs := List.map_append

theorem distinct_snoc_mem (hk : text p.key ∈ keysOf puts) :
    (keysOf (puts ++ [p])).dedup.length = (keysOf puts).dedup.length := by
  rw [← List.card_toFinset, ← List.card_toFinset, keysOf_append, List.toFinset_append]
  congr 1
  exact Finset.union_eq_left.mpr fun k hk' => by
    rw [List.mem_toFinset] at hk' ⊢
    rwa [List.mem_singleton.mp hk']

theorem distinct_snoc_new (hk : text p.key ∉ keysOf puts) :
    (keysOf (puts ++ [p])).dedup.length = (keysOf puts).dedup.length + 1 := by
  have hperm : (keysOf puts ++ [text p.key]).Perm (text p.key :: keysOf puts) := List.perm_append_singleton _ _
  rw [keysOf_append, show keysOf [p] = [text p.key] from rfl, hperm.dedup.length_eq, List.dedup_cons_of_notMem hk,
    List.length_cons]

theorem distinct_le {qs : List Put} : (keysOf puts).dedup.length ≤ (keysOf (puts ++ qs)).dedup.length := by
  rw [← List.card_toFinset, ← List.card_toFinset, keysOf_append, List.toFinset_append]
  exact Finset.card_le_card Finset.subset_union_left

/-! ## `hash_get` の探索 -/

/-- 要素にある鍵の文字列。 -/
def Entry.text? (e : Entry α) : Option (List UInt8) := if e.value.isSome then some (text e.key) else none

/-- 位置 `j` にある鍵の文字列。 -/
def Hash.occ (h : Hash α) (j : Nat) : Option (List UInt8) := (h.id j).text?

theorem occ_eq_none_iff : h.occ j = none ↔ (h.id j).value.isSome = false := by
  unfold Hash.occ Entry.text?
  split
  · rename_i hv
    rw [hv]
    exact iff_of_false (fun hn => nomatch hn) (fun hn => nomatch hn)
  · rename_i hv
    exact iff_of_true rfl (Bool.not_eq_true _ ▸ hv)

theorem occ_eq_some_iff : h.occ j = some (text key) ↔ (h.id j).value.isSome = true ∧ text (h.id j).key = text key := by
  unfold Hash.occ Entry.text?
  split
  · rename_i hv
    rw [hv, Option.some.injEq]
    exact ⟨fun ht => ⟨rfl, ht⟩, fun ht => ht.2⟩
  · rename_i hv
    exact iff_of_false (fun hn => nomatch hn) (fun hn => hv hn.1)

theorem occ_other {k' : List UInt8} (hk : h.occ j = some k') (hne : k' ≠ text key) :
    (h.id j).value.isSome = true ∧ text (h.id j).key ≠ text key := by
  have hv : (h.id j).value.isSome = true := by
    by_contra hv
    rw [occ_eq_none_iff.mpr (Bool.eq_false_of_not_eq_true hv)] at hk
    cases hk
  refine ⟨hv, fun ht => hne ?_⟩
  rw [occ_eq_some_iff.mpr ⟨hv, ht⟩] at hk
  exact (Option.some.inj hk).symm

/-- ほかの鍵の位置は、一周しない限り通り過ぎる。 -/
theorem hashGetLoop_skip (hhash : hash < h.nbuckets) (hd : d < h.nbuckets)
    (hp : Passed h.nbuckets h.occ (text key) hash d) :
    hashGetLoop h key hash (fuel + d) hash = hashGetLoop h key hash fuel (slot h.nbuckets hash d) := by
  induction d generalizing fuel with
  | zero => rw [slot_zero hhash, Nat.add_zero]
  | succ d ih =>
      rw [show fuel + (d + 1) = fuel + 1 + d by omega, ih (by omega) fun e he => hp e (by omega)]
      obtain ⟨k', hk', hne⟩ := hp d (Nat.lt_succ_self d)
      obtain ⟨hv, ht⟩ := occ_other hk' hne
      have hturn : slot h.nbuckets hash (d + 1) ≠ hash := by
        intro hturn
        have hz := slot_inj (a := hash) hd (by omega : 0 < h.nbuckets) (hturn.trans (slot_zero hhash).symm)
        omega
      rw [hashGetLoop, if_neg (fun hm => ht (strcmp_eq_zero_iff.mp hm.2).symm), ← slot_succ]
      exact if_pos ⟨hturn, hv⟩

theorem hashFunction_lt (hn : 0 < n) : hashFunction key n < n := Nat.mod_lt _ hn

/-- `hash_get` は必ず終わり、鍵があればその位置のポインタを、なければ `NULL` を返す。 -/
theorem hashGet_ok (hn : 0 < h.nbuckets) (hr : Reach h.nbuckets (fun k => hashFunction k h.nbuckets) h.occ)
    (key : List UInt8) : ∃ r, hashGet h key = .ok r ∧
      ((r = none ∧ ∀ j < h.nbuckets, h.occ j ≠ some (text key)) ∨
        ∃ j < h.nbuckets, h.occ j = some (text key) ∧ r = (h.id j).value) := by
  have hhash : hashFunction key h.nbuckets < h.nbuckets := hashFunction_lt hn
  have hhome : hashFunction (text key) h.nbuckets = hashFunction key h.nbuckets := hashFunction_text
  rcases stops_or_passed h.nbuckets h.occ (text key) (hashFunction key h.nbuckets) h.nbuckets with ⟨d, hd, hp, hs⟩ | hp
  · obtain ⟨f, hf⟩ : ∃ f, h.nbuckets = f + 1 + d := ⟨h.nbuckets - 1 - d, by omega⟩
    have hskip : hashGetLoop h key _ (f + 1 + d) _ = _ := hashGetLoop_skip hhash hd hp
    rw [← hf] at hskip
    rcases hs with hs | hs
    · refine ⟨none, hskip.trans ?_, Or.inl ⟨rfl, fun j hj => ?_⟩⟩
      · have hv := occ_eq_none_iff.mp hs
        rw [hashGetLoop, if_neg (fun hm => by rw [hm.1] at hv; cases hv)]
        exact if_neg fun hm => by
          rw [hm.2] at hv
          cases hv
      · exact hr.absent (k := text key) (by rw [hhome]; exact hp) (by rw [hhome]; exact hs) hj
    · obtain ⟨hv, ht⟩ := occ_eq_some_iff.mp hs
      refine ⟨_, hskip.trans ?_, Or.inr ⟨_, slot_lt hn, hs, rfl⟩⟩
      rw [hashGetLoop]
      exact if_pos ⟨hv, strcmp_eq_zero_iff.mpr ht.symm⟩
  · -- 一周して `hash` に戻る。
    obtain ⟨d, hd⟩ : ∃ d, h.nbuckets = d + 1 := ⟨h.nbuckets - 1, by omega⟩
    have hskip : hashGetLoop h key _ (1 + d) _ = _ := hashGetLoop_skip hhash (by omega) fun e he => hp e (by omega)
    rw [show 1 + d = h.nbuckets by omega] at hskip
    obtain ⟨k', hk', hne⟩ := hp d (by omega)
    obtain ⟨-, ht⟩ := occ_other hk' hne
    refine ⟨none, hskip.trans ?_, Or.inl ⟨rfl, fun j hj hjk => ?_⟩⟩
    · rw [hashGetLoop, if_neg (fun hm => ht (strcmp_eq_zero_iff.mp hm.2).symm), ← slot_succ, ← hd, slot_turn hhash]
      exact if_neg fun hm => hm.1 rfl
    · obtain ⟨k'', hk'', hne'⟩ := passed_turn_iff.mp hp j hj
      rw [hjk] at hk''
      exact hne' (Option.some.inj hk'').symm

/-! ## `hash_put` の探索 -/

theorem hashPutLoop_skip (hhash : hash < h.nbuckets) (hp : Passed h.nbuckets h.occ (text key) hash d) :
    hashPutLoop h key (fuel + d) hash = hashPutLoop h key fuel (slot h.nbuckets hash d) := by
  induction d generalizing fuel with
  | zero => rw [slot_zero hhash, Nat.add_zero]
  | succ d ih =>
      rw [show fuel + (d + 1) = fuel + 1 + d by omega, ih fun e he => hp e (by omega)]
      obtain ⟨k', hk', hne⟩ := hp d (Nat.lt_succ_self d)
      obtain ⟨hv, ht⟩ := occ_other hk' hne
      rw [hashPutLoop, if_pos ⟨hv, fun hm => ht (strcmp_eq_zero_iff.mp hm)⟩, ← slot_succ]

theorem hashPutLoop_ok (hhash : hash < h.nbuckets) (hd : d < h.nbuckets) (hfuel : h.nbuckets ≤ fuel)
    (hp : Passed h.nbuckets h.occ (text key) hash d) (hs : Stops h.occ (text key) (slot h.nbuckets hash d)) :
    hashPutLoop h key fuel hash = .ok (slot h.nbuckets hash d) := by
  obtain ⟨f, rfl⟩ : ∃ f, fuel = f + 1 + d := ⟨fuel - 1 - d, by omega⟩
  rw [hashPutLoop_skip hhash hp, hashPutLoop]
  refine if_neg fun hm => ?_
  rcases hs with hs | hs
  · rw [occ_eq_none_iff.mp hs] at hm
    cases hm.1
  · exact hm.2 (strcmp_eq_zero_iff.mpr (occ_eq_some_iff.mp hs).2)

/-- どの位置にもほかの鍵があれば、`hash_put` の探索は終わらない。 -/
theorem hashPutLoop_spin (hn : 0 < h.nbuckets) (hfull : ∀ j < h.nbuckets, ∃ k, h.occ j = some k ∧ k ≠ text key)
    (hj : j < h.nbuckets) : hashPutLoop h key fuel j = .error .spin := by
  induction fuel generalizing j with
  | zero => rfl
  | succ fuel ih =>
      obtain ⟨k, hk, hne⟩ := hfull j hj
      obtain ⟨hv, ht⟩ := occ_other hk hne
      rw [hashPutLoop, if_pos ⟨hv, fun hm => ht (strcmp_eq_zero_iff.mp hm)⟩]
      exact ih (Nat.mod_lt _ hn)

theorem hashPutLoop_mono {idx i : Nat} (h' : hashPutLoop h key fuel i = .ok idx) :
    hashPutLoop h key (fuel + d) i = .ok idx := by
  induction fuel generalizing i with
  | zero => cases h'
  | succ fuel ih =>
      rw [Nat.succ_add]
      rw [hashPutLoop] at h' ⊢
      split
      · rename_i hm
        rw [if_pos hm] at h'
        exact ih h'
      · rename_i hm
        rwa [if_neg hm] at h'

end Eleos.Face
