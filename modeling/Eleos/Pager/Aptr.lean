import Eleos.Pager.Cache

/-!
# ページの追い出しと読み込み、`Aptr`（`Aptr.cpp`、`Aptr.h`）

`APTR_RANDOM_ACCESS` を定義しない構成を扱う。エンクレーブの中のページは、`g_slab` から `PAGE_SIZE` ごとに並ぶ枠に置く。
枠の番地は `epc_arr` の各位置に入り、その最下位ビットを変更の印に使う。プールの番地は `g_base_pool_ptr` からの
距離で表す。SGX の暗号と乱数は引数とし、追い出し、読み込み、読み書きの履歴を `trace` に新しい順に残す。
-/

namespace Eleos.Pager

/-! ## 型 -/

abbrev Key := Vector UInt8 16
abbrev Page := Fin pageSize → UInt8

/-- `sgx_rijndael128GCM_encrypt` と `sgx_rijndael128GCM_decrypt`。失敗を `none` で表す。 -/
structure Gcm where
  encrypt : Key → Nonce → Page → Option (Page × Tag)
  decrypt : Key → Nonce → Page → Tag → Option Page

/-- 暗号化は成功し、同じノンスとタグによる復号は元に戻す。 -/
def Gcm.Correct (G : Gcm) : Prop :=
  ∀ k n p, ∃ c t, G.encrypt k n p = some (c, t) ∧ G.decrypt k n c t = some p

/-- 構成の定数。 -/
structure Config where
  -- `CACHE_CAPACITY` と `LLC_CAPACITY`。
  cacheCapacity : Nat
  llcCapacity : Nat
  -- `_pool_size / PAGE_SIZE`。プールは 2^31 バイト以下である。
  poolPages : Nat
  -- `malloc` が `g_slab` に返す番地。
  slabPtr : Nat
  capacity_pos : maxNumOfThreadsOptimization < cacheCapacity
  llc_pos : 0 < llcCapacity
  poolPages_le : poolPages ≤ 524288
  slabPtr_ge : pageSize ≤ slabPtr

-- 小さい構成の大きさ。
theorem capacity_twelve : maxNumOfThreadsOptimization < 12 := by decide
theorem capacity_thirteen : maxNumOfThreadsOptimization < 13 := by decide
theorem capacity_thirtyTwo : maxNumOfThreadsOptimization < 32 := by decide
theorem llc_eight : 0 < 8 := by decide
theorem pool_four : 4 ≤ 524288 := by decide
theorem pool_sixtyFour : 64 ≤ 524288 := by decide
theorem pool_large : 131072 ≤ 524288 := by decide
theorem slab_page : pageSize ≤ 4096 := Nat.le_refl _

/-- `g_slab & ~0xFFF`。 -/
def Config.slab (cfg : Config) : Nat := cfg.slabPtr / pageSize * pageSize

/-- `epc_arr[i]` の初めの値。 -/
def Config.slot (cfg : Config) (i : Nat) : Nat := cfg.slab + i * pageSize

/-- 一回の暗号化または復号の入力と出力。 -/
structure Seal where
  nonce : Nonce
  plain : Page
  cipher : Page
  tag : Tag

/-- 履歴の項目。 -/
inductive Event where
  -- ページを追い出した。変更の印があれば暗号化した内容を伴う。
  | evict (page : Int) (sealed : Option Seal)
  -- ページを枠に読み込んだ。`CryptoCache` にあれば復号した内容を伴う。最後は読み込みを終えた枠の中身である。
  | load (page : Int) (epc : Nat) (unsealed : Option Seal) (content : Page)
  | read (addr : Int) (v : UInt8)
  | write (addr : Int) (v : UInt8)

/-- ページの管理の状態。 -/
structure State where
  -- `epc_arr[i]` に入っている番地と印。
  epcArr : Nat → Nat
  -- エンクレーブの中のメモリ。
  epc : Nat → UInt8
  -- `g_free_epc_pages`。末尾を並びの先頭に置く。
  freeEpcPages : List Nat
  l1 : PageCache
  llc : CryptoCache
  pool : Nat → UInt8
  evictionKey : Key
  -- `sgx_read_rand` の返すノンスの列と、次の位置。
  rand : Nat → Nonce
  randPos : Nat
  trace : List Event

/-- `initialize_aptr` のあとの状態。 -/
def State.init (cfg : Config) (epc pool : Nat → UInt8) (key : Key) (rand : Nat → Nonce) : State where
  epcArr := cfg.slot
  epc := epc
  freeEpcPages := (List.range cfg.cacheCapacity).reverse
  l1 := PageCache.init (cfg.cacheCapacity * 10) cfg.poolPages cfg.cacheCapacity
  llc := CryptoCache.init cfg.llcCapacity
  pool := pool
  evictionKey := key
  rand := rand
  randPos := 0
  trace := []

/-! ## 変更の印とページの読み書き -/

/-- 最下位ビットの検査 `& 0x01`。 -/
def tagBit (v : Nat) : Bool := v % 2 = 1

/-- 最下位ビットの消去 `& 0xFFFFFFFFFFFFFFFE`。 -/
def clearTag (v : Nat) : Nat := v - v % 2

/-- 最下位ビットの設定 `| 0x01`。 -/
def setTag (v : Nat) : Nat := v - v % 2 + 1

/-- 番地 `a` からの一ページ。 -/
def readPage (m : Nat → UInt8) (a : Nat) : Page := fun o => m (a + o)

/-- 番地 `a` からの一ページを書き換える。 -/
def writePage (m : Nat → UInt8) (a : Nat) (p : Page) : Nat → UInt8 :=
  fun x => if h : a ≤ x ∧ x - a < pageSize then p ⟨x - a, h.2⟩ else m x

/-- `page_index * PAGE_SIZE`。 -/
def ramPage (p : Int) : Nat := (int32 (p * pageSize)).toNat

/-! ## 追い出し -/

/-- `try_evict_page` の暗号化。ノンスを取り、枠の中身を暗号化してプールに書き、タグを残す。 -/
def sealPage (G : Gcm) (s : State) (p : Int) (a : Nat) : Except Stop (State × Seal) :=
  let nonce := s.rand s.randPos
  match G.encrypt s.evictionKey nonce (readPage s.epc a) with
  | none => .error .abort
  | some (cipher, tag) =>
      .ok ({ s with
        llc := (s.llc.add p).write p nonce tag
        randPos := s.randPos + 1
        pool := writePage s.pool (ramPage p) cipher },
        ⟨nonce, readPage s.epc a, cipher, tag⟩)

/-- `try_evict_page`。 -/
def tryEvictPage (G : Gcm) (s : State) (pce : Item) : Except Stop State := do
  let v := s.epcArr pce.epc
  let (s, e) ←
    if tagBit v then do
      let (s, e) ← sealPage G { s with epcArr := Function.update s.epcArr pce.epc (clearTag v) } pce.pageIndex
        (clearTag v)
      .ok (s, some e)
    else .ok (s, none)
  let l1 ← s.l1.remove pce.pageIndex
  .ok { s with l1 := l1, freeEpcPages := pce.epc :: s.freeEpcPages, trace := .evict pce.pageIndex e :: s.trace }

/-! ## `aptr_t` と `Aptr` -/

/-- `Aptr`。`prmPtr` が `none` のとき、`prm_ptr` は `DUMMY` を指す。 -/
structure Aptr where
  prmPtr : Option Nat
  page : Int
  offset : Int
  hintWrite : Bool
  basePageIndex : Int
  size : Nat

/-- `*prm_ptr`。`DUMMY` を通した読みは `NULL` になる。 -/
def State.prm (s : State) (a : Aptr) : Nat :=
  match a.prmPtr with
  | none => 0
  | some i => s.epcArr i

/-- `ISVALID`。 -/
def isValid (offset : Int) : Bool := decide (offset < pageSize) && decide (0 ≤ offset)

/-- `APTR2ADDR`。 -/
def aptr2Addr (s : State) (a : Aptr) : Nat := clearTag (s.prm a) + a.offset.toNat

/-- `g_free_epc_pages` の末尾を取る。 -/
def popFree (s : State) : Except Stop (Nat × State) :=
  match s.freeEpcPages with
  | [] => .error .abort
  | i :: rest => .ok (i, { s with freeEpcPages := rest })

/-- `page_fault` の復号。`CryptoCache` に項目があれば、プールの中身を復号して枠に書く。 -/
def fillSlot (G : Gcm) (s : State) (p : Int) (i : Nat) : Except Stop (State × Option Seal) :=
  match s.llc.get p with
  | none => .ok (s, none)
  | some it =>
      let cipher := readPage s.pool (ramPage p)
      match G.decrypt s.evictionKey it.nonce cipher it.mac with
      | none => .error .abort
      | some plain =>
          .ok ({ s with epc := writePage s.epc (s.epcArr i) plain }, some ⟨it.nonce, plain, cipher, it.mac⟩)

/-- 空きの枠を取って内容を読み込み、表に加える。返す値は `Aptr` が指す枠である。 -/
def loadPage (G : Gcm) (s : State) (p : Int) : Except Stop (State × Nat) := do
  let (i, s) ← popFree s
  let (s, e) ← fillSlot G s p i
  let (added, l1) ← s.l1.tryAdd p i
  let s := { s with l1 := l1, trace := .load p i e (readPage s.epc (s.epcArr i)) :: s.trace }
  if added then .ok (s, i)
  else
    match s.l1.get p with
    | none => .error .abort
    | some found => .ok ({ s with freeEpcPages := i :: s.freeEpcPages }, found.epc)

/-- `page_fault` の前半。前のページの参照を外し、`Aptr` の位置を正規化し、新しいページの参照を数える。 -/
def retarget (s : State) (a : Aptr) : Except Stop (State × Aptr × Int) := do
  let tmpPage := a.offset / pageSize
  let l1 ← if s.prm a ≠ 0 then s.l1.decRefCount (int32 (a.basePageIndex + a.page)) else .ok s.l1
  let realPage := int32 (a.page + tmpPage)
  let pageIndex := int32 (a.basePageIndex + realPage)
  let l1 ← l1.incRefCount pageIndex
  .ok ({ s with l1 := l1 }, { a with offset := a.offset % pageSize, page := realPage }, pageIndex)

/-- 枠の余りが少なければ一ページを追い出す。 -/
def makeRoom (cfg : Config) (G : Gcm) (s : State) : Except Stop State :=
  if cfg.cacheCapacity - maxNumOfThreadsOptimization ≤ s.l1.pageCacheSize then do
    let (it, l1) ← s.l1.getPageIndexToEvict
    tryEvictPage G { s with l1 := l1 } it
  else .ok s

/-- `page_fault`。`host` は、追い出しと読み込みの間にホストが行うプールの書き換えである。 -/
def pageFault (cfg : Config) (G : Gcm) (host : (Nat → UInt8) → Nat → UInt8) (s : State) (a : Aptr) :
    Except Stop (State × Aptr) := do
  let (s, a, p) ← retarget s a
  match s.l1.get p with
  | some it => .ok (s, { a with prmPtr := some it.epc })
  | none => do
      let s ← makeRoom cfg G s
      let (s, i) ← loadPage G { s with pool := host s.pool } p
      .ok (s, { a with prmPtr := some i })

/-- `hint_write` が立っていれば、枠に変更の印を付ける。 -/
def markDirty (s : State) (a : Aptr) : Except Stop State :=
  if a.hintWrite then
    match a.prmPtr with
    | none => .error .abort
    | some i =>
        if s.epcArr i = 0 then .error .abort
        else .ok { s with epcArr := Function.update s.epcArr i (setTag (s.epcArr i)) }
  else .ok s

/-- `deref`。返す番地は、エンクレーブの中のメモリの番地である。 -/
def deref (cfg : Config) (G : Gcm) (host : (Nat → UInt8) → Nat → UInt8) (s : State) (a : Aptr) :
    Except Stop (State × Aptr × Nat) := do
  let (s, a) ← if isValid a.offset then .ok (s, a) else pageFault cfg G host s a
  let addr := aptr2Addr s a
  let s ← markDirty s a
  .ok (s, a, addr)

namespace Aptr

/-- `Aptr(void* ram_ptr, size_t size, int notUsed)`。`x` は `ram_ptr` と `g_base_pool_ptr` の差である。 -/
def construct (x : Int) (size : Nat) : Except Stop Aptr :=
  let base := int32 (x / pageSize)
  if 0 ≤ base then
    .ok { prmPtr := none, page := -1, offset := x % pageSize + pageSize, hintWrite := false,
          basePageIndex := base, size := size }
  else .error .abort

/-- `Aptr()`。`m_aptr` は初期化されないので、もとの値 `junk` のままである。 -/
def null (junk : Aptr) : Aptr := { junk with prmPtr := none, basePageIndex := -1, size := 0 }

/-- `Aptr::do_copy`。 -/
def doCopy (a : Aptr) : Aptr :=
  { prmPtr := none, page := int32 (a.page - 1), offset := int32 (a.offset + pageSize), hintWrite := a.hintWrite,
    basePageIndex := a.basePageIndex, size := a.size }

/-- `Aptr::move`。`sizeof(T)` を掛けた `size_t` の量を `int` の `offset` に加える。 -/
def move (a : Aptr) (sizeofT : Nat) (k : Int) : Aptr :=
  { a with offset := int32 (uint64 (a.offset + uint64 (uint64 k * sizeofT))) }

/-- `operator +=` と `operator ++`。 -/
def plusEq (a : Aptr) (sizeofT : Nat) (k : Nat) : Aptr := a.move sizeofT k

/-- `operator -=` と `operator --`。 -/
def minusEq (a : Aptr) (sizeofT : Nat) (k : Nat) : Aptr := a.move sizeofT (-k)

/-- `Aptr::reset`。 -/
def reset (s : State) (a : Aptr) : Except Stop (State × Aptr) :=
  let a' := { a with basePageIndex := -1, prmPtr := none }
  if a.basePageIndex < 0 ∨ s.prm a = 0 then .ok (s, a')
  else do
    let l1 ← s.l1.decRefCount (int32 (a.basePageIndex + a.page))
    .ok ({ s with l1 := l1 }, a')

/-- `Aptr` の指すプールの番地。 -/
def addr (a : Aptr) : Int := (a.basePageIndex + a.page) * pageSize + a.offset

/-- つながっているページ。 -/
def linkedPage? (a : Aptr) : Option Int := a.prmPtr.map fun _ => a.basePageIndex + a.page

end Aptr

end Eleos.Pager
