import Eleos.Lib.Bytes

/-!
# プールのメモリ割り当て（`mem.cpp`）

プールは `szAtom` バイトの単位 `nBlock` 個と、その後ろの `nBlock` バイトの `aCtrl` からなる。空きのブロックの先頭の
8 バイトは `Mem5Link` であり、二つとも信頼できないメモリの中にある。エンクレーブの中には `Mem5Global` だけがある。
ポインタは `zPool` からの距離で表す。番号が `[0, nBlock)` の外にあるアクセスは `outOfBounds` で止まる。
スレッドの間の排他は、呼び出しの全体を囲むので省く。
-/

namespace Eleos.Mem5

/-- `LOGMAX`。 -/
def logMax : Nat := 30

/-- `CTRL_LOGSIZE`。 -/
def ctrlLogsize : UInt8 := 0x1f

/-- `CTRL_FREE`。 -/
def ctrlFree : UInt8 := 0x20

/-- `Mem5Global`。`zPool` は指す先の中身である。`aCtrl` は `zPool` からの距離として `szAtom` と `nBlock` から決まる。 -/
structure Mem5Global where
  szAtom : Int
  nBlock : Int
  zPool : Memory
  aiFreelist : Nat → Int

namespace Mem5Global

/-! ## プールの中の記録 -/

/-- `MEM5LINK(idx)`。 -/
def linkAddr (m : Mem5Global) (i : Int) : Int := int32 (i * m.szAtom)

/-- `&aCtrl[i]`。 -/
def ctrlAddr (m : Mem5Global) (i : Int) : Int := int32 (m.nBlock * m.szAtom) + i

def next (m : Mem5Global) (i : Int) : Int := load32 m.zPool (m.linkAddr i).toNat

def prev (m : Mem5Global) (i : Int) : Int := load32 m.zPool ((m.linkAddr i).toNat + 4)

def ctrl (m : Mem5Global) (i : Int) : UInt8 := m.zPool (m.ctrlAddr i).toNat

def setNext (m : Mem5Global) (i v : Int) : Mem5Global :=
  { m with zPool := store32 m.zPool (m.linkAddr i).toNat v }

def setPrev (m : Mem5Global) (i v : Int) : Mem5Global :=
  { m with zPool := store32 m.zPool ((m.linkAddr i).toNat + 4) v }

def setCtrl (m : Mem5Global) (i : Int) (c : UInt8) : Mem5Global :=
  { m with zPool := Function.update m.zPool (m.ctrlAddr i).toNat c }

def setHead (m : Mem5Global) (k : Nat) (i : Int) : Mem5Global :=
  { m with aiFreelist := Function.update m.aiFreelist k i }

/-- `MEM5LINK(i)` を通したアクセス。 -/
def onLink {α : Type} (m : Mem5Global) (i : Int) (x : α) : Except Stop α :=
  if 0 ≤ i ∧ i < m.nBlock ∧ 0 ≤ m.linkAddr i then .ok x else .error .outOfBounds

/-- `aCtrl[i]` へのアクセス。 -/
def onCtrl {α : Type} (m : Mem5Global) (i : Int) (x : α) : Except Stop α :=
  if 0 ≤ i ∧ i < m.nBlock ∧ 0 ≤ m.ctrlAddr i then .ok x else .error .outOfBounds

end Mem5Global

/-! ## 空きの並び -/

/-- `memsys5Unlink` と `memsys5Link` の初めの検査。 -/
def checkBlock (m : Mem5Global) (i : Int) (iLogsize : Nat) : Except Stop Unit := do
  check (0 ≤ i ∧ i < m.nBlock)
  check (iLogsize ≤ logMax)
  let c ← m.onCtrl i (m.ctrl i)
  check ((c &&& ctrlLogsize).toNat = iLogsize)

/-- `memsys5Unlink` の、前の側の書き換え。 -/
def unlinkPrev (m : Mem5Global) (iLogsize : Nat) (next prev : Int) : Except Stop Mem5Global :=
  if prev < 0 then .ok (m.setHead iLogsize next) else m.onLink prev (m.setNext prev next)

/-- `memsys5Unlink` の、後ろの側の書き換え。 -/
def unlinkNext (m : Mem5Global) (next prev : Int) : Except Stop Mem5Global :=
  if 0 ≤ next then m.onLink next (m.setPrev next prev) else .ok m

/-- `memsys5Unlink`。 -/
def memsys5Unlink (m : Mem5Global) (i : Int) (iLogsize : Nat) : Except Stop Mem5Global := do
  checkBlock m i iLogsize
  let next ← m.onLink i (m.next i)
  let prev ← m.onLink i (m.prev i)
  let m ← unlinkPrev m iLogsize next prev
  unlinkNext m next prev

/-- `memsys5Link` の、並びの先頭だったブロック `x` の書き換え。 -/
def linkHead (m : Mem5Global) (i x : Int) : Except Stop Mem5Global :=
  if 0 ≤ x then do
    check (x < m.nBlock)
    m.onLink x (m.setPrev x i)
  else .ok m

/-- `memsys5Link`。 -/
def memsys5Link (m : Mem5Global) (i : Int) (iLogsize : Nat) : Except Stop Mem5Global := do
  checkBlock m i iLogsize
  let x := m.aiFreelist iLogsize
  let m ← m.onLink i (m.setNext i x)
  let m ← m.onLink i (m.setPrev i (-1))
  let m ← linkHead m i x
  .ok (m.setHead iLogsize i)

/-! ## 割り当て -/

/-- `nByte` を 2 のべきに切り上げる繰り返し。32 回で抜けなければ、`iFullSz` は 0 になっていて抜けない。 -/
def roundLogsize (nByte : Int) : Nat → Int → Nat → Except Stop Nat
  | 0, _, _ => .error .spin
  | fuel + 1, iFullSz, iLogsize =>
      if iFullSz < nByte then roundLogsize nByte fuel (int32 (iFullSz * 2)) (iLogsize + 1) else .ok iLogsize

/-- 空でない並びを探す繰り返し。`fuel` は `iBin` から `LOGMAX` までの個数である。 -/
def findBin (aiFreelist : Nat → Int) : Nat → Nat → Nat
  | 0, iBin => iBin
  | fuel + 1, iBin => if aiFreelist iBin < 0 then findBin aiFreelist fuel (iBin + 1) else iBin

/-- ブロックを半分に分け、後ろの半分を空きの並びに加える繰り返し。 -/
def split (i : Int) (iLogsize : Nat) : Nat → Mem5Global → Except Stop Mem5Global
  | 0, m => .ok m
  | iBin + 1, m =>
      if iLogsize < iBin + 1 then do
        let j := int32 (i + 2 ^ iBin)
        let m ← m.onCtrl j (m.setCtrl j (ctrlFree ||| UInt8.ofNat iBin))
        let m ← memsys5Link m j iBin
        split i iLogsize iBin m
      else .ok m

/-- `memsys5MallocUnsafe`。`none` は `NULL` である。 -/
def memsys5MallocUnsafe (m : Mem5Global) (nByte : Int) : Except Stop (Mem5Global × Option Int) := do
  check (0 < nByte)
  if 0x40000000 < nByte then .ok (m, none)
  else do
    let iLogsize ← roundLogsize nByte 33 m.szAtom 0
    let iBin := findBin m.aiFreelist (logMax + 1 - iLogsize) iLogsize
    if logMax < iBin then .ok (m, none)
    else do
      let i := m.aiFreelist iBin
      let m ← memsys5Unlink m i iBin
      let m ← split i iLogsize iBin m
      let m ← m.onCtrl i (m.setCtrl i (UInt8.ofNat iLogsize))
      .ok (m, some (m.linkAddr i))

/-- `memsys5Malloc`。 -/
def memsys5Malloc (m : Mem5Global) (nBytes : Int) : Except Stop (Mem5Global × Option Int) :=
  if 0 < nBytes then memsys5MallocUnsafe m nBytes else .ok (m, none)

/-! ## 解放 -/

/-- 大きさ `size` のブロックの相手。プールの終わりを越えるときは `none` である。 -/
def buddy (m : Mem5Global) (iBlock : Int) (iLogsize : Nat) (size : Int) : Except Stop (Option Int) :=
  if iBlock / 2 ^ iLogsize % 2 = 1 then do
    check (0 ≤ int32 (iBlock - size))
    .ok (some (int32 (iBlock - size)))
  else if m.nBlock ≤ int32 (iBlock + size) then .ok none
  else .ok (some (int32 (iBlock + size)))

/-- 空いている相手とつなぎ合わせる繰り返し。`fuel` は `iLogsize` から `LOGMAX` までの差である。 -/
def merge : Nat → Mem5Global → Int → Nat → Int → Except Stop (Mem5Global × Int × Nat)
  | 0, m, iBlock, iLogsize, _ => .ok (m, iBlock, iLogsize)
  | fuel + 1, m, iBlock, iLogsize, size => do
      match ← buddy m iBlock iLogsize size with
      | none => .ok (m, iBlock, iLogsize)
      | some iBuddy => do
          let c ← m.onCtrl iBuddy (m.ctrl iBuddy)
          if c ≠ ctrlFree ||| UInt8.ofNat iLogsize then .ok (m, iBlock, iLogsize)
          else do
            let m ← memsys5Unlink m iBuddy iLogsize
            -- 二つのうち前のブロックが残る。
            let (lo, hi) := if iBuddy < iBlock then (iBuddy, iBlock) else (iBlock, iBuddy)
            let m ← m.onCtrl lo (m.setCtrl lo (ctrlFree ||| UInt8.ofNat (iLogsize + 1)))
            let m ← m.onCtrl hi (m.setCtrl hi 0)
            merge fuel m lo (iLogsize + 1) (uint32 (size * 2))

/-- `memsys5FreeUnsafe`。 -/
def memsys5FreeUnsafe (m : Mem5Global) (pOld : Int) : Except Stop Mem5Global := do
  let iBlock := int32 (pOld.tdiv m.szAtom)
  check (0 ≤ iBlock ∧ iBlock < m.nBlock)
  check (pOld.tmod m.szAtom = 0)
  let c ← m.onCtrl iBlock (m.ctrl iBlock)
  check (c &&& ctrlFree = 0)
  let iLogsize := (c &&& ctrlLogsize).toNat
  let size := uint32 (2 ^ iLogsize)
  let last := uint32 (iBlock + size - 1)
  check (last < uint32 m.nBlock)
  let m ← m.onCtrl iBlock (m.setCtrl iBlock (m.ctrl iBlock ||| ctrlFree))
  let m ← m.onCtrl last (m.setCtrl last (m.ctrl last ||| ctrlFree))
  let m ← m.onCtrl iBlock (m.setCtrl iBlock (ctrlFree ||| UInt8.ofNat iLogsize))
  let (m, iBlock, iLogsize) ← merge (logMax - iLogsize) m iBlock iLogsize size
  memsys5Link m iBlock iLogsize

/-- `memsys5Free`。 -/
def memsys5Free (m : Mem5Global) (pPrior : Option Int) : Except Stop Mem5Global :=
  match pPrior with
  | none => .error .abort
  | some p => memsys5FreeUnsafe m p

/-! ## 初期化 -/

/-- `memsys5Log` の繰り返し。 -/
def logFrom (iValue : Int) : Nat → Nat → Nat
  | 0, iLog => iLog
  | fuel + 1, iLog => if 2 ^ iLog < iValue then logFrom iValue fuel (iLog + 1) else iLog

/-- `memsys5Log`。 -/
def memsys5Log (iValue : Int) : Nat := logFrom iValue 31 0

/-- `szAtom` を `sizeof(Mem5Link)` 以上にする繰り返し。 -/
def growAtom : Nat → Int → Except Stop Int
  | 0, _ => .error .spin
  | fuel + 1, szAtom => if szAtom < 8 then growAtom fuel (int32 (szAtom * 2)) else .ok szAtom

/-- 大きさ `2 ^ ii` のブロックが残りに収まれば、空きの並びに加える。 -/
def carveOne (m : Mem5Global) (iOffset : Int) (ii : Nat) : Except Stop (Mem5Global × Int) :=
  if int32 (iOffset + 2 ^ ii) ≤ m.nBlock then do
    let m ← m.onCtrl iOffset (m.setCtrl iOffset (UInt8.ofNat ii ||| ctrlFree))
    let m ← memsys5Link m iOffset ii
    .ok (m, int32 (iOffset + 2 ^ ii))
  else .ok (m, iOffset)

/-- `memsys5Init` の、大きいブロックから順に空きの並びに加える繰り返し。 -/
def carve : Nat → Mem5Global → Int → Except Stop Mem5Global
  | 0, m, _ => .ok m
  | ii + 1, m, iOffset => do
      let (m, iOffset) ← carveOne m iOffset ii
      check (m.nBlock < int32 (iOffset + 2 ^ ii))
      carve ii m iOffset

/-- `memsys5Init`。`zPool` は `NULL` でないプールの初めの中身であり、`aCtrl` も消さずに使う。 -/
def memsys5Init (zPool : Memory) (pSize : Nat) (mnReq : Int) : Except Stop Mem5Global := do
  let nByte := int32 pSize
  let szAtom ← growAtom 33 (int32 (2 ^ memsys5Log mnReq))
  let nBlock := int32 (uint64 nByte / uint64 (szAtom + 1))
  carve (logMax + 1) { szAtom := szAtom, nBlock := nBlock, zPool := zPool, aiFreelist := fun _ => -1 } 0

/-- `MN_REQ`。 -/
def mnReq : Int := 16

end Eleos.Mem5
