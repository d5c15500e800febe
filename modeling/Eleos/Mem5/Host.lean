import Eleos.Mem5.Alloc

/-!
# プールを書き換えるホストのもとでの割り当て

ホストは、呼び出しの間に `Mem5Link` と `aCtrl` を含むプールの中身を好きなように書き換える。
-/

namespace Eleos.Mem5

/-- エンクレーブからの呼び出し。 -/
inductive Call where
  | malloc (nBytes : Int)
  | free (p : Option Int)

/-- 呼び出しと、その前のホストによるプールの書き換え。 -/
structure HostCall where
  host : Memory → Memory
  call : Call

namespace Mem5Global

/-- 一つの呼び出し。`memsys5Free` の結果は `none` とする。 -/
def call (m : Mem5Global) : Call → Except Stop (Mem5Global × Option Int)
  | .malloc nBytes => memsys5Malloc m nBytes
  | .free p => do
      let m ← memsys5Free m p
      .ok (m, none)

def rewrite (m : Mem5Global) (host : Memory → Memory) : Mem5Global := { m with zPool := host m.zPool }

/-- `P` が、実行のどの呼び出しでも、その前の状態について成り立つ。 -/
def Along (P : Mem5Global → Call → Prop) (m : Mem5Global) : List HostCall → Prop
  | [] => True
  | h :: hs => P (m.rewrite h.host) h.call ∧
      ∀ m' r, (m.rewrite h.host).call h.call = .ok (m', r) → m'.Along P hs

/-- 実行のどの呼び出しも止まらないときの、結果の並び。 -/
def results (m : Mem5Global) : List HostCall → Except Stop (List (Option Int))
  | [] => .ok []
  | h :: hs => do
      let (m, r) ← (m.rewrite h.host).call h.call
      let rs ← m.results hs
      .ok (r :: rs)

/-! ## プールの外に出ないこと -/

/-- 呼び出しは `[0, nBlock)` の外の番号を使わず、プールの外に書かず、プールの中のブロックを返す。 -/
structure Contained (m : Mem5Global) (c : Call) : Prop where
  bounds : m.call c ≠ .error .outOfBounds
  stores : ∀ m' r, m.call c = .ok (m', r) →
    ∀ x : Nat, m.nBlock * (m.szAtom + 1) ≤ x → m'.zPool x = m.zPool x
  result : ∀ n m' p, c = .malloc n → m.call c = .ok (m', some p) → 0 ≤ p ∧ p + n ≤ m.nBlock * m.szAtom

/-! ## ホストの書いた記録の条件 -/

/-- ブロック `i` の `next` と `prev` は `nBlock` より小さい。 -/
def LinkInside (m : Mem5Global) (i : Int) : Prop := m.next i < m.nBlock ∧ m.prev i < m.nBlock

/-- 大きさ `2 ^ k` のブロック `b` を解放するときにつなぎ合わせる相手。`aCtrl` の印をたどる。 -/
def freeBuddies (m : Mem5Global) : Nat → Int → Nat → List Int
  | 0, _, _ => []
  | fuel + 1, b, k =>
      let o := if b / 2 ^ k % 2 = 1 then b - 2 ^ k else b + 2 ^ k
      if o < m.nBlock ∧ m.ctrl o = ctrlFree ||| UInt8.ofNat k then o :: m.freeBuddies fuel (min b o) (k + 1)
      else []

/-- 呼び出しが空きの並びから外すブロックの記録は、プールの中だけを指す。
割り当てでは並びの先頭のブロックがプールに収まる。検査で止まる先頭は問わない。 -/
def Sane (m : Mem5Global) : Call → Prop
  | .malloc n => ∀ k, roundLogsize n 33 m.szAtom 0 = .ok k →
      let iBin := findBin m.aiFreelist (logMax + 1 - k) k
      let i := m.aiFreelist iBin
      iBin ≤ logMax → i < m.nBlock → (m.ctrl i &&& ctrlLogsize).toNat = iBin →
        m.LinkInside i ∧ i + 2 ^ iBin ≤ m.nBlock
  | .free none => True
  | .free (some p) =>
      let b := int32 (p.tdiv m.szAtom)
      let k := (m.ctrl b &&& ctrlLogsize).toNat
      ∀ o ∈ m.freeBuddies (logMax - k) b k, m.LinkInside o

/-! ## 条件の判定 -/

instance (m : Mem5Global) (i : Int) : Decidable (m.LinkInside i) :=
  inferInstanceAs (Decidable (m.next i < m.nBlock ∧ m.prev i < m.nBlock))

instance (m : Mem5Global) : (c : Call) → Decidable (m.Sane c)
  | .malloc n => inferInstanceAs (Decidable (∀ k, roundLogsize n 33 m.szAtom 0 = .ok k →
      let iBin := findBin m.aiFreelist (logMax + 1 - k) k
      let i := m.aiFreelist iBin
      iBin ≤ logMax → i < m.nBlock → (m.ctrl i &&& ctrlLogsize).toNat = iBin →
        m.LinkInside i ∧ i + 2 ^ iBin ≤ m.nBlock))
  | .free none => isTrue trivial
  | .free (some p) =>
      have (b : Int) (k : Nat) : Decidable (∀ o ∈ m.freeBuddies (logMax - k) b k, m.LinkInside o) := inferInstance
      this (int32 (p.tdiv m.szAtom)) (m.ctrl (int32 (p.tdiv m.szAtom)) &&& ctrlLogsize).toNat

instance decidableAlong (P : Mem5Global → Call → Prop) [∀ m c, Decidable (P m c)] :
    (m : Mem5Global) → (hs : List HostCall) → Decidable (m.Along P hs)
  | _, [] => isTrue trivial
  | m, h :: hs =>
      have (x : Mem5Global × Option Int) : Decidable (x.1.Along P hs) := decidableAlong P x.1 hs
      have : Decidable (∀ m' r, (m.rewrite h.host).call h.call = .ok (m', r) → m'.Along P hs) :=
        decidable_of_iff (∀ x, (m.rewrite h.host).call h.call = .ok x → x.1.Along P hs)
          ⟨fun ha m' r => ha (m', r), fun ha x => ha x.1 x.2⟩
      inferInstanceAs (Decidable (P (m.rewrite h.host) h.call ∧
        ∀ m' r, (m.rewrite h.host).call h.call = .ok (m', r) → m'.Along P hs))

end Mem5Global

end Eleos.Mem5
