import Eleos.Server.HashMap

/-!
# 配列を使う表の探索

`get` は最初の位置しか調べないので、加えた鍵が見つかるのは、その鍵が最初の位置にあるときだけである。
-/

namespace Eleos.Server

variable {n fuel loc : Nat} {t t' : Nat → Item} {k k' : UInt64} {it : Item} {items l : List Item}

/-! ## `get` -/

theorem getLoop_ok_iff : (∃ fuel, getLoop n t k (hashKey n k) fuel (hashKey n k) = .ok loc) ↔
    loc = hashKey n k ∧ (t loc).key = k := by
  constructor
  · rintro ⟨fuel, h⟩
    have hany (fuel i : Nat) (h : getLoop n t k (hashKey n k) fuel i = .ok loc) :
        loc = hashKey n k ∧ (t loc).key = k := by
      induction fuel generalizing i with
      | zero => cases h
      | succ fuel ih =>
          unfold getLoop at h
          split at h
          · rename_i hk
            cases h
            exact ⟨rfl, hk⟩
          · exact ih _ h
    exact hany fuel _ h
  · rintro ⟨rfl, hk⟩
    exact ⟨1, if_pos hk⟩

/-- 一度の比較で終わらなければ、`getLoop` は終わらない。 -/
theorem getLoop_eq_get : getLoop n t k (hashKey n k) (fuel + 1) loc = get n t k := by
  induction fuel generalizing loc with
  | zero => rfl
  | succ fuel ih =>
      unfold getLoop
      by_cases hk : (t (hashKey n k)).key = k
      · rw [if_pos hk, get, if_pos hk]
      · rw [if_neg hk]
        exact ih

/-! ## 衝突 -/

/-- 加えた鍵がすべて見つかれば、最初の位置が同じ鍵は等しい。 -/
theorem FindsAll.inj (h : FindsAll n items) (hk : k ∈ items.map Item.key) (hk' : k' ∈ items.map Item.key)
    (heq : hashKey n k = hashKey n k') : k = k' := by
  obtain ⟨fuel, t, -, hget⟩ := h fun _ => 0
  obtain ⟨f₁, loc, h₁, hkey, -⟩ := hget k hk
  obtain ⟨f₂, loc', h₂, hkey', -⟩ := hget k' hk'
  obtain ⟨hloc, -⟩ := getLoop_ok_iff.mp ⟨f₁, h₁⟩
  obtain ⟨hloc', -⟩ := getLoop_ok_iff.mp ⟨f₂, h₂⟩
  rw [← hkey, ← hkey', hloc, hloc', heq]

/-- `l` の項目を加えた表。使っている位置は、そこにある鍵の最初の位置である。 -/
structure Direct (n : Nat) (l : List Item) (t : Nat → Item) : Prop where
  home : ∀ j, (t j).key = -1 ∨ ∃ it ∈ l, it.key = (t j).key ∧ hashKey n it.key = j
  found : ∀ it ∈ l, (t (hashKey n it.key)).key = it.key ∧ lastVal l it.key = some (t (hashKey n it.key)).val

theorem lastVal_append_self : lastVal (l ++ [it]) it.key = some it.val := by
  unfold lastVal
  rw [List.reverse_append, List.reverse_singleton, List.singleton_append, List.find?_cons_of_pos (by simp)]
  rfl

theorem lastVal_append_ne (h : it.key ≠ k) : lastVal (l ++ [it]) k = lastVal l k := by
  unfold lastVal
  rw [List.reverse_append, List.reverse_singleton, List.singleton_append, List.find?_cons_of_neg (by simpa using h)]

/-- 最初の位置が空いているか同じ鍵なら、そこに加える。 -/
theorem Direct.add (h : Direct n l t) (hinj : ∀ it' ∈ l, hashKey n it'.key = hashKey n it.key → it'.key = it.key) :
    ∃ t', Server.add n t it 1 0 = .ok t' ∧ Direct n (l ++ [it]) t' := by
  have hhash : hashKey n (it.key + UInt64.ofNat 0) = hashKey n it.key := by
    rw [show UInt64.ofNat 0 = 0 from rfl, UInt64.add_zero]
  have hfree : (t (hashKey n it.key)).key = it.key ∨ (t (hashKey n it.key)).key = -1 := by
    rcases h.home (hashKey n it.key) with hf | ⟨it', hit', hkey, hloc⟩
    · exact Or.inr hf
    · exact Or.inl (hkey ▸ hinj it' hit' hloc)
  refine ⟨Function.update t (hashKey n it.key) it, ?_, ?_, ?_⟩
  · unfold Server.add
    dsimp only
    rw [hhash, if_pos hfree]
  · intro j
    by_cases hj : j = hashKey n it.key
    · subst hj
      rw [Function.update_self]
      exact Or.inr ⟨it, by simp, rfl, rfl⟩
    · rw [Function.update_of_ne hj]
      refine (h.home j).imp id ?_
      rintro ⟨it', hit', hr⟩
      exact ⟨it', List.mem_append_left _ hit', hr⟩
  · intro it' hit'
    by_cases hk : it.key = it'.key
    · rw [← hk, Function.update_self]
      exact ⟨rfl, lastVal_append_self⟩
    · have hmem : it' ∈ l := by
        rcases List.mem_append.mp hit' with hm | hm
        · exact hm
        · exact absurd (congrArg Item.key (List.mem_singleton.mp hm)).symm hk
      have hloc : hashKey n it'.key ≠ hashKey n it.key := fun he => hk (hinj it' hmem he).symm
      rw [Function.update_of_ne hloc, lastVal_append_ne hk]
      exact h.found it' hmem

theorem Direct.addAll (h : Direct n l t) (hinj : ∀ a ∈ l ++ items, ∀ b ∈ l ++ items,
    hashKey n a.key = hashKey n b.key → a.key = b.key) :
    ∃ t', Server.addAll n 1 t items = .ok t' ∧ Direct n (l ++ items) t' := by
  induction items generalizing l t with
  | nil => exact ⟨t, rfl, by rwa [List.append_nil]⟩
  | cons it items ih =>
      obtain ⟨t₁, hadd, h₁⟩ := h.add fun it' hit' =>
        hinj it' (List.mem_append_left _ hit') it (by simp)
      have happ : l ++ it :: items = l ++ [it] ++ items := by rw [List.append_assoc, List.singleton_append]
      rw [happ] at hinj ⊢
      obtain ⟨t', hrun, h'⟩ := ih h₁ hinj
      exact ⟨t', bind_ok_iff.mpr ⟨t₁, hadd, hrun⟩, h'⟩

/-- 加えた鍵がすべて見つかるのは、違う鍵の最初の位置がどれも違うとき、かつそのときに限る。 -/
theorem findsAll_iff (n : Nat) (items : List Item) : FindsAll n items ↔
    ∀ k ∈ items.map Item.key, ∀ k' ∈ items.map Item.key, hashKey n k = hashKey n k' → k = k' := by
  constructor
  · exact fun h k hk k' hk' heq => h.inj hk hk' heq
  · intro hinj junk
    have hinit : Direct n [] (newBuckets junk) := ⟨fun _ => Or.inl rfl, fun it hit => nomatch hit⟩
    obtain ⟨t, hrun, ht⟩ := hinit.addAll fun a ha b hb =>
      hinj _ (List.mem_map_of_mem ha) _ (List.mem_map_of_mem hb)
    refine ⟨1, t, hrun, ?_⟩
    intro k hk
    obtain ⟨it, hit, rfl⟩ := List.mem_map.mp hk
    obtain ⟨hkey, hval⟩ := ht.found it hit
    obtain ⟨fuel, hget⟩ := getLoop_ok_iff.mpr ⟨rfl, hkey⟩
    exact ⟨fuel, _, hget, hkey, hval⟩

/-- 鍵 0 と 33554432 は、大きさ 33554432 の表で衝突する。二つ目の鍵は次の位置に加わり、`get` は終わらない。 -/
theorem collide_not_findsAll : (∃ t, addAll 33554432 2 (newBuckets fun _ => 0) [⟨0, 5⟩, ⟨33554432, 7⟩] = .ok t ∧
      (t 1).key = 33554432 ∧ ∀ fuel loc, getLoop 33554432 t 33554432 0 fuel loc = .error .spin) ∧
    ¬ FindsAll 33554432 [⟨0, 5⟩, ⟨33554432, 7⟩] := by
  refine ⟨⟨_, rfl, rfl, ?_⟩, ?_⟩
  · intro fuel
    induction fuel with
    | zero => exact fun _ => rfl
    | succ fuel ih => exact fun loc => ih ((loc + 1) % 33554432)
  · intro h
    have hmem₀ : (0 : UInt64) ∈ [(⟨0, 5⟩ : Item), ⟨33554432, 7⟩].map Item.key := by simp
    have hmem₁ : (33554432 : UInt64) ∈ [(⟨0, 5⟩ : Item), ⟨33554432, 7⟩].map Item.key := by simp
    have := h.inj hmem₀ hmem₁ (by decide)
    revert this
    decide

end Eleos.Server
