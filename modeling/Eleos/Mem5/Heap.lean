import Eleos.Lib.Dyadic
import Eleos.Mem5.Alloc

/-!
# 空きのブロックと割り当てたブロック

空きのブロックは、`aiFreelist` から `next` をたどって得る。割り当てた領域の並びとあわせて、割り当ての約束を述べる。
-/

namespace Eleos.Mem5

namespace Mem5Global

/-- 並びを `i` からたどる。 -/
def walk (m : Mem5Global) : Nat → Int → List Int
  | 0, _ => []
  | fuel + 1, i => if i < 0 then [] else i :: m.walk fuel (m.next i)

/-- 大きさ `2 ^ k` の空きの並び。 -/
def freeList (m : Mem5Global) (k : Nat) : List Int := m.walk m.nBlock.toNat (m.aiFreelist k)

/-- 空きのブロックの全体。 -/
def freeBlocks (m : Mem5Global) : Set Block := {b | b.log ≤ logMax ∧ b.start ∈ m.freeList b.log}

end Mem5Global

/-- `nByte` を切り上げた大きさの、`szAtom` に対する 2 のべき。 -/
def logOf (szAtom nByte : Int) : Nat :=
  match roundLogsize nByte 33 szAtom 0 with
  | .ok k => k
  | .error _ => 0

/-- 割り当てた領域。 -/
structure Alloc where
  ptr : Int
  nByte : Int
  deriving DecidableEq

/-- 切り上げた大きさ。 -/
def Alloc.size (szAtom : Int) (a : Alloc) : Int := szAtom * 2 ^ logOf szAtom a.nByte

def Alloc.block (szAtom : Int) (a : Alloc) : Block := ⟨a.ptr / szAtom, logOf szAtom a.nByte⟩

/-- 割り当ての状態と、解放していない領域。 -/
structure Arena where
  mem : Mem5Global
  live : List Alloc

namespace Arena

/-- 割り当てたブロックの全体。 -/
def liveBlocks (s : Arena) : Set Block := {b | ∃ a ∈ s.live, a.block s.mem.szAtom = b}

/-- 割り当ての約束。`m` は `memsys5Init` のあとの状態である。 -/
structure Contract (m : Mem5Global) (s : Arena) : Prop where
  -- 空きと割り当てたブロックは、プールの全体を分割する。
  partition : Tiling m.nBlock (s.mem.freeBlocks ∪ s.liveBlocks)
  apart : ∀ b ∈ s.liveBlocks, b ∉ s.mem.freeBlocks
  distinct : (s.live.map (Alloc.block m.szAtom)).Nodup
  -- 割り当てた領域は、切り上げた大きさの倍数から始まる。
  rounded : ∀ a ∈ s.live, a.nByte ≤ a.size m.szAtom ∧ (a.size m.szAtom = m.szAtom ∨ a.size m.szAtom < 2 * a.nByte)
  aligned : ∀ a ∈ s.live, a.ptr = (a.block m.szAtom).start * m.szAtom ∧ a.size m.szAtom ∣ a.ptr
  small : ∀ a ∈ s.live, a.size m.szAtom ≤ 4096 → a.ptr / 4096 = (a.ptr + a.size m.szAtom - 1) / 4096
  large : ∀ a ∈ s.live, 4096 < a.size m.szAtom → (4096 : Int) ∣ a.ptr
  -- 呼び出しは戻り、`NULL` は十分な大きさの空きがないときだけである。
  malloc : ∀ n, 0 < n → n ≤ 0x40000000 → ∃ m' r, memsys5Malloc s.mem n = .ok (m', r) ∧
    (r = none → ∀ b ∈ s.mem.freeBlocks, b.log < logOf m.szAtom n)
  free : ∀ a ∈ s.live, ∃ m', memsys5Free s.mem (some a.ptr) = .ok m'
  lone : NoBuddies s.mem.freeBlocks
  restored : s.live = [] → s.mem.freeBlocks = m.freeBlocks

end Arena

/-- プールの配置は `pSize` バイトに収まり、空きの並びはプールの全体を分割する。 -/
structure Mem5Global.LaidOut (m : Mem5Global) (pSize : Nat) : Prop where
  nonneg : 0 ≤ m.nBlock
  noOverflow : int32 (m.nBlock * m.szAtom) = m.nBlock * m.szAtom
  -- `[0, nBlock * szAtom)` と `[aCtrl, aCtrl + nBlock)` は重ならず、どちらも `[0, pSize)` に収まる。
  atoms : 0 ≤ m.nBlock * m.szAtom ∧ m.nBlock * m.szAtom ≤ pSize
  ctrls : m.nBlock * m.szAtom ≤ m.ctrlAddr 0 ∧ m.ctrlAddr 0 + m.nBlock ≤ pSize
  partition : Tiling m.nBlock m.freeBlocks

end Eleos.Mem5
