import Eleos.Pager.Run

/-!
# `Aptr` の番地の計算、比較、代入（`Aptr.h`）と `g_slab` の枠（`Aptr.cpp`）

番地は整数の上で見る。`int` の和と積は `int32` で折り返し、`g_slab` の番地は 64 ビットの語とする。
-/

namespace Eleos.Pager

/-- `int` に収まる。 -/
def FitsInt (x : Int) : Prop := -2147483648 ≤ x ∧ x < 2147483648

instance (x : Int) : Decidable (FitsInt x) := inferInstanceAs (Decidable (_ ∧ _))

/-! ## 番地の計算 -/

/-- 構築、複写、移動、`page_fault` で得られる `Aptr`。`pool` はプールの大きさである。構築と `page_fault` はプールの中の番地でだけ行い、
複写と移動では `offset` の正しい値が `int` に収まる。`C` は複写の元の `Aptr` の条件である。 -/
inductive Built (cfg : Config) (G : Gcm) (pool : Nat) (C : Aptr → Prop) : Aptr → Prop where
  | construct {x : Int} {size : Nat} {a : Aptr} : 0 ≤ x → x < pool → Aptr.construct x size = .ok a →
      Built cfg G pool C a
  | copy {a : Aptr} : Built cfg G pool C a → FitsInt (a.offset + pageSize) → C a → Built cfg G pool C a.doCopy
  | move {a : Aptr} (sizeofT : Nat) (k : Int) : Built cfg G pool C a → FitsInt (a.offset + k * sizeofT) →
      Built cfg G pool C (a.move sizeofT k)
  | fault {a a' : Aptr} {s s' : State} (host : (Nat → UInt8) → Nat → UInt8) : Built cfg G pool C a → 0 ≤ a.addr →
      a.addr < pool → pageFault cfg G host s a = .ok (s', a') → Built cfg G pool C a'

/-- 番地の計算が整数の上の計算に一致する。 -/
structure AddrExact (cfg : Config) (G : Gcm) (pool : Nat) (C : Aptr → Prop) : Prop where
  construct : ∀ (x : Int) (size : Nat), 0 ≤ x → x < pool → ∃ a, Aptr.construct x size = .ok a ∧ a.addr = x
  copy : ∀ a, Built cfg G pool C a → FitsInt (a.offset + pageSize) → C a → a.doCopy.addr = a.addr
  move : ∀ a (sizeofT : Nat) k, Built cfg G pool C a → FitsInt (a.offset + k * sizeofT) →
    (a.move sizeofT k).addr = a.addr + k * sizeofT
  fault : ∀ a host s s' a', Built cfg G pool C a → 0 ≤ a.addr → a.addr < pool →
    pageFault cfg G host s a = .ok (s', a') →
    a'.addr = a.addr ∧ 0 ≤ a'.offset ∧ a'.offset < pageSize ∧ a'.basePageIndex + a'.page = a.addr / pageSize
  -- `page_fault` の `page_index`。
  index : ∀ a s s' a' p, Built cfg G pool C a → 0 ≤ a.addr → a.addr < pool → retarget s a = .ok (s', a', p) →
    p = a.addr / pageSize ∧ FitsInt (p * pageSize)
  -- `try_evict_page` の `page_index`。
  evict : ∀ s, Reach cfg G s → ∀ p it, s.state.l1.get p = some it → it.pageIndex = p ∧ FitsInt (p * pageSize)

/-! ## 比較 -/

/-- `Aptr::operator==`。右辺では `>>` より先に `+` を計算する。 -/
def Aptr.eq (a lhs : Aptr) : Bool :=
  decide (lhs.basePageIndex = a.basePageIndex) &&
    decide (int32 (lhs.offset + lhs.page / pageSize) = int32 (a.offset + a.page) / pageSize)

/-- `Aptr::operator!=`。 -/
def Aptr.ne (a lhs : Aptr) : Bool :=
  decide (lhs.basePageIndex ≠ a.basePageIndex) ||
    decide (int32 (lhs.offset + lhs.page / pageSize) ≠ int32 (a.offset + a.page) / pageSize)

/-- `S` の `Aptr` の比較が、指す番地の比較である。 -/
structure EqLawful (S : Set Aptr) : Prop where
  same : ∀ a ∈ S, ∀ b ∈ S, a.basePageIndex = b.basePageIndex → (a.eq b = true ↔ a.addr = b.addr)
  neg : ∀ a ∈ S, ∀ b ∈ S, a.ne b = !a.eq b
  refl : ∀ a ∈ S, a.eq a = true
  symm : ∀ a ∈ S, ∀ b ∈ S, a.eq b = true → b.eq a = true
  trans : ∀ a ∈ S, ∀ b ∈ S, ∀ c ∈ S, a.eq b = true → b.eq c = true → a.eq c = true

/-- 自分自身との比較が成り立つ `Aptr` の形。`offset` は 0 であるか、`page` に加えると 4096 ページの境を越える 1 か -1 である。 -/
def Aptr.Flat (a : Aptr) : Prop :=
  a.offset = 0 ∨ (a.offset = 1 ∧ a.page % pageSize = 4095 ∧ a.page ≠ 2147483647) ∨
    (a.offset = -1 ∧ a.page % pageSize = 0 ∧ a.page ≠ -2147483648)

instance (a : Aptr) : Decidable a.Flat := inferInstanceAs (Decidable (_ ∨ _))

/-! ## 代入 -/

/-- `Aptr` の指す番地。空の `Aptr` は番地を持たない。 -/
def Aptr.denotes (a : Aptr) : Option Int := if a.basePageIndex < 0 then none else some a.addr

/-- 代入 `dst = src` が、`src` の番地と属性を写し、`dst` のつながっていたページの参照だけを一つ減らす。 -/
structure Sys.Assigns (s s' : Sys) (dst src : Nat) (a b : Aptr) : Prop where
  target : ∃ a', s'.get dst = .ok a' ∧ a'.denotes = b.denotes ∧ a'.hintWrite = b.hintWrite ∧ a'.size = b.size
  source : ∃ b', s'.get src = .ok b' ∧ b'.denotes = b.denotes
  released : ∀ p, a.linkedPage? = some p →
    (s'.state.l1.refCount p).toNat + 1 = (s.state.l1.refCount p).toNat
  others : ∀ p, a.linkedPage? ≠ some p → s'.state.l1.refCount p = s.state.l1.refCount p

/-- 代入が正しくなる条件。 -/
structure Sys.Assignable (s : Sys) (dst src : Nat) (a b : Aptr) : Prop where
  distinct : dst ≠ src ∨ b.basePageIndex < 0
  fits : 0 ≤ b.basePageIndex → FitsInt (b.offset + pageSize) ∧ FitsInt (b.page - 1)
  counted : ∀ p, a.linkedPage? = some p → s.state.l1.refCount p ≠ 0

/-! ## `g_slab` の枠 -/

/-- `malloc` に求める大きさ `PAGE_SIZE*CACHE_CAPACITY+0x1000`。 -/
def slabSize (capacity : Nat) : Nat := pageSize * capacity + 0x1000

/-- `malloc` の返す番地 `r` からの `g_slab`。`~0xFFF` は `int` から符号を保って広げる。 -/
def gSlab (r : BitVec 64) : BitVec 64 := r &&& ~~~0xFFF#64

/-- `epc_arr[i]` の初めの値。 -/
def epcSlot (r : BitVec 64) (i : Nat) : BitVec 64 := gSlab r + BitVec.ofNat 64 (i * pageSize)

/-- `deref` で変更の印を付けた番地。 -/
def tagged (v : BitVec 64) : BitVec 64 := v ||| 1#64

/-- `APTR2ADDR` の計算。 -/
def untag (v offset : BitVec 64) : BitVec 64 := (v &&& 0xFFFFFFFFFFFFFFFE#64) + offset

/-- 枠の番地の条件。 -/
structure SlabSound (r : BitVec 64) (capacity : Nat) : Prop where
  aligned : ∀ i < capacity, (epcSlot r i).toNat % pageSize = 0
  tag : ∀ i < capacity, ∀ o, epcSlot r i &&& 1#64 = 0#64 ∧ untag (epcSlot r i) o = epcSlot r i + o ∧
    untag (tagged (epcSlot r i)) o = epcSlot r i + o
  apart : ∀ i < capacity, ∀ j < capacity, i ≠ j → (epcSlot r i).toNat + pageSize ≤ (epcSlot r j).toNat ∨
    (epcSlot r j).toNat + pageSize ≤ (epcSlot r i).toNat
  inside : ∀ i < capacity, r.toNat ≤ (epcSlot r i).toNat ∧
    (epcSlot r i).toNat + pageSize ≤ r.toNat + slabSize capacity

end Eleos.Pager
