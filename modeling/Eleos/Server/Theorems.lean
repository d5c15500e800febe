import Eleos.Libc.Theorems
import Eleos.Server.Lemmas.Suvm

/-!
# パラメータサーバの模倣

SUVM を使う表は、追い出しがどう起きても、配列を使う表と同じ項目を持つ。
-/

namespace Eleos.Server

open Pager Libc

variable {cfg : Config} {G : Gcm} {s : Sys} {x : Int} {i n : Nat} {t : Nat → Item} {keys : List UInt64}

/-! ## 配列を使う表 -/

/-- 位置 `i` に鍵 `i` がある。 -/
def Keyed (n : Nat) (t : Nat → Item) : Prop := ∀ i < n, (t i).key = UInt64.ofNat i

theorem toNat_index (hn : n * 16 ≤ 0x40000000) (hi : i < n) : (UInt64.ofNat i).toNat = i :=
  UInt64.toNat_ofNat_of_lt' (Nat.lt_of_lt_of_le (show i < 67108864 by omega) (by decide))

/-- 空いている位置に加える。 -/
theorem add_ok (hn : n * 16 ≤ 0x40000000) (hi : i < n) (ht : (t i).key = -1) :
    add n t ⟨UInt64.ofNat i, 0⟩ n 0 = .ok (Function.update t i ⟨UInt64.ofNat i, 0⟩) := by
  obtain ⟨m, rfl⟩ : ∃ m, n = m + 1 := ⟨n - 1, by omega⟩
  have hhash : hashKey (m + 1) (UInt64.ofNat i + UInt64.ofNat 0) = i := by
    unfold hashKey
    rw [show UInt64.ofNat 0 = 0 from rfl, UInt64.add_zero, toNat_index hn hi, Nat.mod_eq_of_lt hi]
  unfold add
  dsimp only
  rw [hhash, if_pos (Or.inr ht)]

theorem initHashmap_ok {k : Nat} (hn : n * 16 ≤ 0x40000000) (hik : i + k = n) (hold : ∀ j < i, t j = ⟨UInt64.ofNat j, 0⟩)
    (hnew : ∀ j, i ≤ j → j < n → (t j).key = -1) :
    ∃ t', initHashmap n t i k = .ok t' ∧ ∀ j < n, t' j = ⟨UInt64.ofNat j, 0⟩ := by
  induction k generalizing i t with
  | zero => exact ⟨t, rfl, fun j hj => hold j (by omega)⟩
  | succ k ih =>
      have hadd := add_ok hn (by omega) (hnew i (Nat.le_refl i) (by omega))
      obtain ⟨t', hrun, ht'⟩ := ih (i := i + 1) (t := Function.update t i ⟨UInt64.ofNat i, 0⟩) (by omega)
        (by
          intro j hj
          by_cases heq : j = i
          · rw [heq, Function.update_self]
          · rw [Function.update_of_ne heq]
            exact hold j (by omega))
        (by
          intro j hj hjn
          rw [Function.update_of_ne (by omega)]
          exact hnew j (by omega) hjn)
      exact ⟨t', bind_ok_iff.mpr ⟨_, hadd, hrun⟩, ht'⟩

theorem Keyed.hashKey_eq {key : UInt64} (hk : key.toNat < n) : hashKey n key = key.toNat := Nat.mod_eq_of_lt hk

theorem Keyed.key_eq {key : UInt64} (h : Keyed n t) (hk : key.toNat < n) : (t key.toNat).key = key := by
  rw [h _ hk, UInt64.ofNat_toNat]

theorem Keyed.handle_ok {key : UInt64} (h : Keyed n t) (hk : key.toNat < n) :
    handle n t key = .ok (Function.update t key.toNat ⟨key, (t key.toNat).val + 1⟩) := by
  refine bind_ok_iff.mpr ⟨key.toNat, ?_, ?_⟩
  · unfold get
    dsimp only
    rw [Keyed.hashKey_eq hk, if_pos (h.key_eq hk)]
  · rw [h.key_eq hk]

theorem Keyed.update {key v : UInt64} (h : Keyed n t) : Keyed n (Function.update t key.toNat ⟨key, v⟩) := by
  intro i hi
  by_cases heq : i = key.toNat
  · rw [heq, Function.update_self, UInt64.ofNat_toNat]
  · rw [Function.update_of_ne heq]
    exact h i hi

/-! ## 模倣 -/

/-- 要求の列の処理のあとも、二つの表は一致する。 -/
theorem Serving.serve (hG : G.Correct) {s₀ : Sys} (h : Serving cfg G x n t s) (hp : Placed cfg s₀ x n) (ht : Keyed n t)
    (hk : ∀ key ∈ keys, key.toNat < n) : ∃ s' t', suvmServe cfg G x n keys s = .ok s' ∧
      Server.serve n t keys = .ok t' ∧ Serving cfg G x n t' s' := by
  induction keys generalizing s t with
  | nil => exact ⟨s, t, rfl, rfl, h⟩
  | cons key keys ih =>
      have hkey := hk key List.mem_cons_self
      obtain ⟨s₁, hget, h₁, -⟩ := h.get hG hp hkey (ht.key_eq hkey)
      obtain ⟨s₂, t₂, hs₂, ht₂, h₂⟩ := ih h₁ ht.update fun k hm => hk k (List.mem_cons_of_mem key hm)
      exact ⟨s₂, t₂, bind_ok_iff.mpr ⟨s₁, hget, hs₂⟩, bind_ok_iff.mpr ⟨_, ht.handle_ok hkey, ht₂⟩, h₂⟩

/-- どの大きさの表についても、どの要求の列を処理しても、SUVM を通して見える項目は、配列の項目に等しい。 -/
theorem suvm_refines_array (hG : G.Correct) (hs : Session cfg G s) (hp : Placed cfg s x n) (junk : Aptr)
    (vals : Nat → UInt64) (hk : ∀ key ∈ keys, key.toNat < n) : ∃ s₁ s₂ t₀ t₁,
      suvmNew cfg G s junk x n = .ok s₁ ∧ suvmServe cfg G x n keys s₁ = .ok s₂ ∧
      initHashmap n (newBuckets vals) 0 n = .ok t₀ ∧ serve n t₀ keys = .ok t₁ ∧
      ∀ i < n, itemAt G s₂ (x + 16 * (i : Nat)) = some (t₁ i) := by
  obtain ⟨s₁, hnew, h₁, -⟩ := suvmNew_ok hG junk (hs.ready hG) hp
  obtain ⟨t₀, hinit, ht₀⟩ := initHashmap_ok hp.small (Nat.zero_add n) (fun j hj => absurd hj (Nat.not_lt_zero j))
    (fun j _ _ => show (newBuckets vals j).key = -1 from rfl)
  have hserving : Serving cfg G x n t₀ s₁ :=
    ⟨h₁.ready, h₁.room, fun i hi => by rw [ht₀ i hi]; exact h₁.stored i hi⟩
  have hkeyed : Keyed n t₀ := fun i hi => by rw [ht₀ i hi]
  obtain ⟨s₂, t₁, hs₂, ht₁, h₂⟩ := hserving.serve hG hp hkeyed hk
  exact ⟨s₁, s₂, t₀, t₁, hnew, hs₂, hinit, ht₁, fun i hi => (h₂.stored i hi).itemAt_eq h₂.ready.good⟩

/-- 三枚より少ないページしかつなげない構成。 -/
def narrowConfig : Config where
  cacheCapacity := 13
  llcCapacity := 8
  poolPages := 64
  slabPtr := 4096
  capacity_pos := capacity_thirteen
  llc_pos := llc_eight
  poolPages_le := pool_sixtyFour
  slabPtr_ge := slab_page

def narrowInit : Sys :=
  Sys.init narrowConfig (fun _ => 0) (fun _ => 0) (Vector.replicate 16 0) fun k => Vector.replicate 12 (UInt8.ofNat k)

theorem narrowInit_placed : Placed narrowConfig narrowInit 8192 1024 where
  aligned := by decide
  start := by decide
  range := ⟨by decide, by decide⟩
  small := by decide
  room := fun _ _ => roomFor_few (m := 2) (n := 0) rfl rfl (by decide) (by decide)

/-- 四枚のページの表に三つの要求を処理する。 -/
theorem suvm_refines_array_narrow : ∃ s₁ s₂ t₀ t₁,
    suvmNew narrowConfig demoGcm narrowInit newAptr 8192 1024 = .ok s₁ ∧
    suvmServe narrowConfig demoGcm 8192 1024 [5, 1000, 5] s₁ = .ok s₂ ∧
    initHashmap 1024 (newBuckets fun _ => 9) 0 1024 = .ok t₀ ∧ serve 1024 t₀ [5, 1000, 5] = .ok t₁ ∧
    ∀ i < 1024, itemAt demoGcm s₂ (8192 + 16 * (i : Nat)) = some (t₁ i) :=
  suvm_refines_array demoGcm_correct ⟨_, _, _, _, .refl⟩ narrowInit_placed newAptr (fun _ => 9) (by simp)

end Eleos.Server
