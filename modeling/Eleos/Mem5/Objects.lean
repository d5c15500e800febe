import Eleos.Mem5.Heap

/-!
# 割り当てた領域に置くデータ（`mem.cpp`）

`memsys5Size`、`memsys5Roundup`、`memsys5Realloc` と、割り当てた領域への書き込みを含む実行を表す。
-/

namespace Eleos.Mem5

/-! ## 大きさ -/

/-- `memsys5Size`。 -/
def memsys5Size (m : Mem5Global) (p : Option Int) : Except Stop Int :=
  match p with
  | none => .error .abort
  | some p => do
      let i := int32 (p.tdiv m.szAtom)
      check (0 ≤ i ∧ i < m.nBlock)
      let c ← m.onCtrl i (m.ctrl i)
      .ok (int32 (m.szAtom * int32 (2 ^ (c &&& ctrlLogsize).toNat)))

/-- `memsys5Roundup` の繰り返し。32 回で抜けなければ、`iFullSz` は 0 になっていて抜けない。 -/
def roundFullSz (n : Int) : Nat → Int → Except Stop Int
  | 0, _ => .error .spin
  | fuel + 1, iFullSz => if iFullSz < n then roundFullSz n fuel (int32 (iFullSz * 2)) else .ok iFullSz

/-- `memsys5Roundup`。 -/
def memsys5Roundup (m : Mem5Global) (n : Int) : Except Stop Int :=
  if 0x40000000 < n then .ok 0 else roundFullSz n 33 m.szAtom

/-! ## 大きさの変更 -/

/-- `memcpy`。 -/
def memcpy (z : Memory) (dst src n : Int) : Memory := fun x =>
  if dst ≤ x ∧ x < dst + n then z (x - dst + src).toNat else z x

/-- `memsys5Realloc`。 -/
def memsys5Realloc (m : Mem5Global) (pPrior : Option Int) (nBytes : Int) : Except Stop (Mem5Global × Option Int) :=
  match pPrior with
  | none => .error .abort
  | some prior => do
      check (BitVec.ofInt 32 nBytes &&& BitVec.ofInt 32 (nBytes - 1) = 0)
      check (0 ≤ nBytes)
      if nBytes = 0 then .ok (m, none)
      else do
        let nOld ← memsys5Size m (some prior)
        if nBytes ≤ nOld then .ok (m, some prior)
        else do
          let (m, r) ← memsys5Malloc m nBytes
          match r with
          | none => .ok (m, none)
          | some p => do
              let m ← memsys5Free { m with zPool := memcpy m.zPool p prior nOld } (some prior)
              .ok (m, some p)

/-! ## データを置く実行 -/

/-- 割り当ての状態と、領域に最後に書いた値。`written p off` は、ポインタ `p` の領域の `off` バイト目である。 -/
structure Objects where
  arena : Arena
  written : Int → Nat → Option UInt8

namespace Objects

inductive Op where
  | malloc (nByte : Int)
  | free (a : Alloc)
  -- `nBytes` は `memsys5Roundup` で切り上げてから渡す。
  | realloc (a : Alloc) (nBytes : Int)
  | write (a : Alloc) (off : Nat) (v : UInt8)

/-- 新しい領域の値は定まらない。 -/
def clear (written : Int → Nat → Option UInt8) (p : Int) : Int → Nat → Option UInt8 :=
  Function.update written p fun _ => none

/-- 領域の値を `p` から `q` に移す。 -/
def move (written : Int → Nat → Option UInt8) (p q : Int) : Int → Nat → Option UInt8 :=
  Function.update (clear written p) q (written p)

def put (written : Int → Nat → Option UInt8) (p : Int) (off : Nat) (v : UInt8) : Int → Nat → Option UInt8 :=
  Function.update written p (Function.update (written p) off (some v))

def step (s : Objects) : Op → Except Stop Objects
  | .malloc n => do
      let (m, r) ← memsys5Malloc s.arena.mem n
      match r with
      | none => .ok { s with arena := { s.arena with mem := m } }
      | some p => .ok { arena := { mem := m, live := ⟨p, n⟩ :: s.arena.live }, written := clear s.written p }
  | .free a => do
      let m ← memsys5Free s.arena.mem (some a.ptr)
      .ok { arena := { mem := m, live := s.arena.live.erase a }, written := clear s.written a.ptr }
  | .realloc a n => do
      let n ← memsys5Roundup s.arena.mem n
      let (m, r) ← memsys5Realloc s.arena.mem (some a.ptr) n
      match r with
      | none => .ok { s with arena := { s.arena with mem := m } }
      | some p =>
          -- 同じポインタが返れば、領域はそのままである。
          if p = a.ptr then .ok { s with arena := { s.arena with mem := m } }
          else .ok {
            arena := { mem := m, live := ⟨p, n⟩ :: s.arena.live.erase a }
            written := move s.written a.ptr p }
  | .write a off v => .ok {
      arena := { s.arena with mem := { s.arena.mem with
        zPool := Function.update s.arena.mem.zPool (a.ptr + off).toNat v } }
      written := put s.written a.ptr off v }

/-- 呼び出しの前提。 -/
def Guard (s : Objects) : Op → Prop
  | .malloc n => 0 < n ∧ n ≤ 0x40000000
  | .free a => a ∈ s.arena.live
  | .realloc a _ => a ∈ s.arena.live
  | .write a off _ => a ∈ s.arena.live ∧ off < a.size s.arena.mem.szAtom

/-- `memsys5Init` のあとの状態 `m` から到達できる状態。 -/
inductive Reach (m : Mem5Global) : Objects → Prop where
  | init : Reach m ⟨⟨m, []⟩, fun _ _ => none⟩
  | step {s s' : Objects} {op : Op} : Reach m s → s.Guard op → s.step op = .ok s' → Reach m s'

/-- 呼び出しの列。 -/
def run (s : Objects) : List Op → Except Stop Objects
  | [] => .ok s
  | op :: ops => do
      let s ← s.step op
      s.run ops

/-- 列のどの呼び出しも前提を満たす。 -/
def Guarded (s : Objects) : List Op → Prop
  | [] => True
  | op :: ops => s.Guard op ∧ ∀ s', s.step op = .ok s' → s'.Guarded ops

instance (s : Objects) : (op : Op) → Decidable (s.Guard op)
  | .malloc n => inferInstanceAs (Decidable (0 < n ∧ n ≤ 0x40000000))
  | .free a => inferInstanceAs (Decidable (a ∈ s.arena.live))
  | .realloc a _ => inferInstanceAs (Decidable (a ∈ s.arena.live))
  | .write a off _ => inferInstanceAs (Decidable (a ∈ s.arena.live ∧ off < a.size s.arena.mem.szAtom))

instance decidableGuarded : (s : Objects) → (ops : List Op) → Decidable (s.Guarded ops)
  | _, [] => isTrue trivial
  | s, op :: ops =>
      have (s' : Objects) : Decidable (s'.Guarded ops) := decidableGuarded s' ops
      inferInstanceAs (Decidable (s.Guard op ∧ ∀ s', s.step op = .ok s' → s'.Guarded ops))

/-- 最後に書いた値が残っている。 -/
def Kept (s : Objects) : Prop :=
  ∀ a ∈ s.arena.live, ∀ off v, s.written a.ptr off = some v →
    off < a.size s.arena.mem.szAtom ∧ s.arena.mem.zPool (a.ptr + off).toNat = v

/-- `2 ^ k` 個の単位の並びが、割り当てたブロックと重ならずにプールに収まる。 -/
def Room (s : Objects) (k : Nat) : Prop :=
  ∃ b : Block, b.log = k ∧ b.Aligned ∧ 0 ≤ b.start ∧ b.stop ≤ s.arena.mem.nBlock ∧
    ∀ c ∈ s.arena.liveBlocks, ∀ x, b.Has x → ¬ c.Has x

end Objects

end Eleos.Mem5
