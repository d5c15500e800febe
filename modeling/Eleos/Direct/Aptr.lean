import Eleos.Lib.Span
import Eleos.Pager.Aptr

/-!
# 部分ページの単位の管理（`APTR_RANDOM_ACCESS` の構成）

`APTR_RANDOM_ACCESS` を定義した構成を扱う。ページは `SUB_PAGE_COUNT` 個の部分ページに分かれ、暗号化、復号と、枠の中身の
有効性は部分ページごとに扱う。枠の割り当て、参照の数、表からの削除はページごとのままである。
`Aptr` が部分ページを離れるとき、`aptr_fsync` がその部分ページだけを書き出し、ほかに参照がなければページを表から外す。
この構成では枠の番地に変更の印を付けないので、`epc_arr` は初めの値のまま変わらない。
-/

namespace Eleos.Direct

open Eleos.Pager (Key Nonce Tag Config Event pageSize maxNumOfThreadsOptimization bucketIndex clearTag ramPage)

/-- `SUB_PAGE_COUNT`。 -/
def subPageCount : Nat := 16

/-- `SUB_PAGE_SIZE`。 -/
def subPageSize : Nat := 256

theorem subPageSize_pos : 0 < subPageSize := by decide

/-! ## `PageCache` -/

/-- `item_t`。 -/
structure Item where
  pageIndex : Int
  epc : Nat
  isValid : Nat → Bool

/-- `PageCache`。この構成では `m_used_pages` に何も入れないので省く。 -/
structure PageCache where
  table : Table Int Item
  refCount : Int → UInt8
  backingStoreSize : Nat
  pageCacheSize : Nat

namespace PageCache

/-- `PageCache::init`。 -/
def init (numOfBuckets backingStoreSize : Nat) : PageCache where
  table := { size := numOfBuckets, hash := bucketIndex numOfBuckets, buckets := fun _ => [] }
  refCount := fun _ => 0
  backingStoreSize := backingStoreSize
  pageCacheSize := 0

/-- `m_ref_count[page_index]` の読み。 -/
def getRefCount (c : PageCache) (p : Int) : Except Stop UInt8 :=
  if 0 ≤ p ∧ p < c.backingStoreSize then .ok (c.refCount p) else .error .outOfBounds

/-- `m_ref_count[page_index]` の書き換え。 -/
def setRefCount (c : PageCache) (p : Int) (f : UInt8 → UInt8) : Except Stop PageCache :=
  if 0 ≤ p ∧ p < c.backingStoreSize then
    .ok { c with refCount := Function.update c.refCount p (f (c.refCount p)) }
  else .error .outOfBounds

/-- `PageCache::inc_ref_count`。 -/
def incRefCount (c : PageCache) (p : Int) : Except Stop PageCache := c.setRefCount p (· + 1)

/-- `PageCache::dec_ref_count`。 -/
def decRefCount (c : PageCache) (p : Int) : Except Stop PageCache := c.setRefCount p (· - 1)

/-- `PageCache::get`。 -/
def get (c : PageCache) (p : Int) : Option Item := c.table.get Item.pageIndex p

/-- `PageCache::try_add`。加える項目では `sub_page_index` の部分ページだけが有効である。 -/
def tryAdd (c : PageCache) (p : Int) (epc : Nat) (subPageIndex : Nat) : Bool × PageCache :=
  match c.get p with
  | some _ => (false, c)
  | none => (true, { c with
      table := c.table.append Item.pageIndex ⟨p, epc, fun i => i = subPageIndex⟩
      pageCacheSize := c.pageCacheSize + 1 })

/-- `found->is_valid[sub_page_index] = true`。 -/
def setValid (c : PageCache) (p : Int) (subPageIndex : Nat) : PageCache :=
  { c with
    table := c.table.modify Item.pageIndex p fun it =>
      { it with isValid := Function.update it.isValid subPageIndex true } }

/-- `PageCache::remove`。 -/
def remove (c : PageCache) (p : Int) : Except Stop PageCache :=
  match c.get p with
  | none => .error .abort
  | some _ => .ok { c with
      table := c.table.remove Item.pageIndex p
      pageCacheSize := c.pageCacheSize - 1 }

/-- `PageCache::try_remove`。参照の数がちょうど 1 のときだけ外す。 -/
def tryRemove (c : PageCache) (p : Int) : Except Stop (Bool × PageCache) := do
  if (← c.getRefCount p) = 1 then
    let c ← c.remove p
    .ok (true, c)
  else .ok (false, c)

end PageCache

/-! ## `CryptoCache` -/

/-- `crypto_item_t`。 -/
structure CryptoItem where
  pageIndex : Int
  nonce : Nat → Nonce
  mac : Nat → Tag
  isInitialized : Nat → Bool

/-- `CryptoCache`。 -/
abbrev CryptoCache := Table Int CryptoItem

namespace CryptoCache

/-- `CryptoCache::init`。 -/
def init (numOfBuckets : Nat) : CryptoCache :=
  { size := numOfBuckets, hash := bucketIndex numOfBuckets, buckets := fun _ => [] }

/-- `CryptoCache::get`。 -/
def get (c : CryptoCache) (p : Int) : Option CryptoItem := Table.get CryptoItem.pageIndex c p

/-- `CryptoCache::add`。なければ、どの部分ページも `is_initialized` でない要素を加える。 -/
def add (c : CryptoCache) (p : Int) : CryptoCache :=
  match c.get p with
  | some _ => c
  | none => Table.append CryptoItem.pageIndex c
      ⟨p, fun _ => Vector.replicate 12 0, fun _ => Vector.replicate 16 0, fun _ => false⟩

/-- `add` の返す要素の部分ページ `k` への、ノンスとタグと `is_initialized` の書き込み。 -/
def write (c : CryptoCache) (p : Int) (k : Nat) (nonce : Nonce) (mac : Tag) : CryptoCache :=
  Table.modify CryptoItem.pageIndex c p fun x =>
    { x with
      nonce := Function.update x.nonce k nonce
      mac := Function.update x.mac k mac
      isInitialized := Function.update x.isInitialized k true }

end CryptoCache

/-! ## 状態 -/

abbrev SubPage := Fin subPageSize → UInt8

/-- `SUB_PAGE_SIZE` バイトの `sgx_rijndael128GCM_encrypt` と `sgx_rijndael128GCM_decrypt`。失敗を `none` で表す。 -/
structure Gcm where
  encrypt : Key → Nonce → SubPage → Option (SubPage × Tag)
  decrypt : Key → Nonce → SubPage → Tag → Option SubPage

/-- 暗号化は成功し、同じノンスとタグによる復号は元に戻す。 -/
def Gcm.Correct (G : Gcm) : Prop :=
  ∀ k n p, ∃ c t, G.encrypt k n p = some (c, t) ∧ G.decrypt k n c t = some p

/-- ページの管理の状態。 -/
structure State where
  -- エンクレーブの中のメモリ。
  epc : Nat → UInt8
  -- `g_free_epc_pages`。末尾を並びの先頭に置く。
  freeEpcPages : List Nat
  l1 : PageCache
  llc : CryptoCache
  pool : Nat → UInt8
  evictionKey : Key
  -- `sgx_read_rand` の返すノンスの列と、次の位置。
  rand : Nat → Nonce
  randPos : Nat
  -- 読み書きの履歴。新しい順に並ぶ。
  trace : List Event

/-- `initialize_aptr` のあとの状態。 -/
def State.init (cfg : Config) (epc pool : Nat → UInt8) (key : Key) (rand : Nat → Nonce) : State where
  epc := epc
  freeEpcPages := (List.range cfg.cacheCapacity).reverse
  l1 := PageCache.init (cfg.cacheCapacity * 10) cfg.poolPages
  llc := CryptoCache.init cfg.llcCapacity
  pool := pool
  evictionKey := key
  rand := rand
  randPos := 0
  trace := []

/-! ## `aptr_t` -/

/-- `Aptr`。`aptr_t` に `sub_page_index` が加わる。 -/
structure Aptr extends Pager.Aptr where
  subPageIndex : Nat

/-- `*prm_ptr`。`DUMMY` を通した読みは `NULL` になる。 -/
def prm (cfg : Config) (a : Aptr) : Nat :=
  match a.prmPtr with
  | none => 0
  | some i => cfg.slot i

/-- `APTR2ADDR`。 -/
def aptr2Addr (cfg : Config) (a : Aptr) : Nat := clearTag (prm cfg a) + a.offset.toNat

/-- `deref` の検査。`offset` が `sub_page_index` の部分ページの中にある。 -/
def inSubPage (a : Aptr) : Bool :=
  decide (a.subPageIndex * subPageSize ≤ a.offset) && decide (a.offset < (a.subPageIndex + 1) * subPageSize)

/-- プールの中の、ページ `p` の部分ページ `k` の番地。 -/
def ramAddr (p : Int) (k : Nat) : Nat := ramPage p + k * subPageSize

/-- 枠 `i` の部分ページ `k` の番地。 -/
def epcAddr (cfg : Config) (i k : Nat) : Nat := cfg.slot i + k * subPageSize

/-! ## `aptr_fsync` -/

/-- 枠の部分ページを暗号化してプールに書き、ノンスとタグを残す。 -/
def sealSubPage (G : Gcm) (s : State) (p : Int) (k : Nat) (epcPtr : Nat) : Except Stop State :=
  let nonce := s.rand s.randPos
  match G.encrypt s.evictionKey nonce (readSpan subPageSize s.epc epcPtr) with
  | none => .error .abort
  | some (cipher, tag) =>
      .ok { s with
        llc := (s.llc.add p).write p k nonce tag
        randPos := s.randPos + 1
        pool := writeSpan s.pool (ramAddr p k) cipher }

/-- `aptr_fsync`。ページを外したときも、`prm_ptr` はもとの枠を指したままである。 -/
def aptrFsync (cfg : Config) (G : Gcm) (s : State) (a : Aptr) : Except Stop State :=
  match a.prmPtr with
  | none => .ok s
  | some i => do
      let p := int32 (a.basePageIndex + a.page)
      let s ← if a.hintWrite then sealSubPage G s p a.subPageIndex (epcAddr cfg i a.subPageIndex) else .ok s
      let (removed, l1) ← s.l1.tryRemove p
      if removed then .ok { s with l1 := l1, freeEpcPages := i :: s.freeEpcPages }
      else .ok { s with l1 := l1 }

/-! ## `page_fault` -/

/-- `page_fault` の前半。ページが変わるときだけ、前のページの参照を外し、新しいページの参照を数える。 -/
def retarget (cfg : Config) (s : State) (a : Aptr) : Except Stop (State × Aptr × Int) := do
  let tmpPage := a.offset / pageSize
  let l1 ← if prm cfg a ≠ 0 ∧ tmpPage ≠ 0 then s.l1.decRefCount (int32 (a.basePageIndex + a.page)) else .ok s.l1
  let realPage := int32 (a.page + tmpPage)
  let pageIndex := int32 (a.basePageIndex + realPage)
  let offset := a.offset % pageSize
  let l1 ← if tmpPage ≠ 0 then l1.incRefCount pageIndex else .ok l1
  .ok ({ s with l1 := l1 },
    { a with offset := offset, page := realPage, subPageIndex := (offset / subPageSize).toNat }, pageIndex)

/-- 枠の余りの検査。追い出しは空の待ち行列からの取り出しになり、その検査で止まる。 -/
def makeRoom (cfg : Config) (s : State) : Except Stop State :=
  if cfg.cacheCapacity - maxNumOfThreadsOptimization ≤ s.l1.pageCacheSize then .error .abort else .ok s

/-- `g_free_epc_pages` の末尾を取る。 -/
def popFree (s : State) : Except Stop (Nat × State) :=
  match s.freeEpcPages with
  | [] => .error .abort
  | i :: rest => .ok (i, { s with freeEpcPages := rest })

/-- 部分ページの復号。`is_initialized` のとき、プールの中身を復号して枠に書く。 -/
def fillSubPage (cfg : Config) (G : Gcm) (s : State) (p : Int) (k i : Nat) : Except Stop State :=
  match s.llc.get p with
  | none => .ok s
  | some it =>
      if it.isInitialized k then
        match G.decrypt s.evictionKey (it.nonce k) (readSpan subPageSize s.pool (ramAddr p k)) (it.mac k) with
        | none => .error .abort
        | some plain => .ok { s with epc := writeSpan s.epc (epcAddr cfg i k) plain }
      else .ok s

/-- すでに表にあるページに、枠 `i` に読み込んだ部分ページを写す。枠 `i` は空きに戻す。 -/
def mergeSubPage (cfg : Config) (s : State) (found : Item) (k i : Nat) : State :=
  let s :=
    if found.isValid k then s
    else { s with
      epc := writeSpan s.epc (epcAddr cfg found.epc k) (readSpan subPageSize s.epc (epcAddr cfg i k))
      l1 := s.l1.setValid found.pageIndex k }
  { s with freeEpcPages := i :: s.freeEpcPages }

/-- 空きの枠を取って部分ページを読み込み、表に加える。返す値は `Aptr` が指す枠である。 -/
def loadSubPage (cfg : Config) (G : Gcm) (s : State) (p : Int) (k : Nat) : Except Stop (State × Nat) := do
  let (i, s) ← popFree s
  let s ← fillSubPage cfg G s p k i
  let (added, l1) := s.l1.tryAdd p i k
  let s := { s with l1 := l1 }
  if added then .ok (s, i)
  else
    match s.l1.get p with
    | none => .error .abort
    | some found => .ok (mergeSubPage cfg s found k i, found.epc)

/-- `page_fault`。部分ページが有効であれば、枠を指すだけで済む。 -/
def pageFault (cfg : Config) (G : Gcm) (s : State) (a : Aptr) : Except Stop (State × Aptr) := do
  let (s, a, p) ← retarget cfg s a
  match (s.l1.get p).filter fun it => it.isValid a.subPageIndex with
  | some it => .ok (s, { a with prmPtr := some it.epc })
  | none => do
      let s ← makeRoom cfg s
      let (s, i) ← loadSubPage cfg G s p a.subPageIndex
      .ok (s, { a with prmPtr := some i })

/-- `deref`。返す番地は、エンクレーブの中のメモリの番地である。 -/
def deref (cfg : Config) (G : Gcm) (s : State) (a : Aptr) : Except Stop (State × Aptr × Nat) := do
  let (s, a) ←
    if inSubPage a then .ok (s, a)
    else do
      let s ← aptrFsync cfg G s a
      pageFault cfg G s a
  .ok (s, a, aptr2Addr cfg a)

/-! ## `Aptr` -/

namespace Aptr

/-- `Aptr(void* ram_ptr, size_t size, int notUsed)`。 -/
def construct (x : Int) (size : Nat) : Except Stop Aptr := do
  let a ← Pager.Aptr.construct x size
  .ok ⟨a, 0⟩

/-- `Aptr()`。`sub_page_index` も初期化されない。 -/
def null (junk : Aptr) : Aptr := ⟨Pager.Aptr.null junk.toAptr, junk.subPageIndex⟩

/-- `Aptr::do_copy`。 -/
def doCopy (a : Aptr) : Aptr := ⟨a.toAptr.doCopy, 0⟩

/-- `Aptr::move`。 -/
def move (a : Aptr) (sizeofT : Nat) (k : Int) : Aptr := ⟨a.toAptr.move sizeofT k, a.subPageIndex⟩

/-- `Aptr::reset`。参照を外す前に `aptr_fsync` を行う。 -/
def reset (cfg : Config) (G : Gcm) (s : State) (a : Aptr) : Except Stop (State × Aptr) :=
  let a' := { a with basePageIndex := -1, prmPtr := none }
  if a.basePageIndex < 0 ∨ prm cfg a = 0 then .ok (s, a')
  else do
    let s ← aptrFsync cfg G s a
    let l1 ← s.l1.decRefCount (int32 (a.basePageIndex + a.page))
    .ok ({ s with l1 := l1 }, a')

end Aptr

end Eleos.Direct
