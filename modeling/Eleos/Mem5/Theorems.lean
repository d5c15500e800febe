import Eleos.Mem5.Lemmas.Contain
import Eleos.Mem5.Lemmas.Objects

/-!
# プールのメモリ割り当ての定理
-/

namespace Eleos.Mem5

open Mem5Global

variable {z : Memory} {p : Nat} {r : Int} {m : Mem5Global}

/-! ## ホストのもとでプールの外に出ないこと -/

/-- 空きの並びから外すブロックの記録をホストがプールの外に向けない限り、どの呼び出しもプールの外に出ない。 -/
theorem mem5_contained {hs : List HostCall} (hinit : memsys5Init z p mnReq = .ok m) (h : m.Along Sane hs) :
    m.Along Contained hs :=
  h.contained (memsys5Init_fits hinit)

/-- 0 で埋めた 4 単位のプールの、初期化のあとの状態。 -/
def smallPool : Mem5Global := (memsys5Init (fun _ => 0) 68 mnReq).toOption.getD (fresh (fun _ => 0) 16 4)

theorem smallPool_eq : memsys5Init (fun _ => 0) 68 mnReq = .ok smallPool := by
  have h : (memsys5Init (fun _ => 0) 68 mnReq).toOption.isSome := by decide +kernel
  unfold smallPool
  cases he : memsys5Init (fun _ => 0) 68 mnReq with
  | error e =>
      rw [he] at h
      cases h
  | ok m => rfl

/-- 記録を偽るホストのもとでの六つの呼び出し。初めの割り当ては偽の `next` を並びの先頭に残し、三つ目と四つ目は同じ
ブロックを返す。解放は、空きと偽られたブロック 1 と 2 をつなぎ合わせる。 -/
def forgedRun : List HostCall := [
  ⟨fun w => store32 w 0 2, .malloc 16⟩,
  ⟨fun w => Function.update (store32 w 16 2) 66 ctrlFree, .malloc 16⟩,
  ⟨fun w => store32 (store32 w 32 0) 36 3, .malloc 16⟩,
  ⟨fun w => store32 (store32 w 32 1) 36 (-1), .malloc 16⟩,
  ⟨fun w => Function.update (Function.update (store32 (store32 w 20 3) 32 (-1)) 65 ctrlFree) 66 (ctrlFree ||| 1),
    .free (some 0)⟩,
  ⟨fun w => store32 w 0 1, .malloc 64⟩]

theorem forgedRun_contained : memsys5Init (fun _ => 0) 68 mnReq = .ok smallPool ∧
    smallPool.results forgedRun = .ok [some 0, some 16, some 32, some 32, none, some 0] ∧
    smallPool.Along Sane forgedRun ∧ smallPool.Along Contained forgedRun := by
  have hsane : smallPool.Along Sane forgedRun := by decide +kernel
  exact ⟨smallPool_eq, by decide +kernel, hsane, mem5_contained smallPool_eq hsane⟩

/-- 先頭のブロックの `next` をプールの外に向けるホスト。 -/
def hostileRun : List HostCall := [⟨fun w => store32 w 0 100, .malloc 64⟩]

theorem hostileRun_escapes : memsys5Init (fun _ => 0) 68 mnReq = .ok smallPool ∧ ¬ smallPool.Along Contained hostileRun := by
  refine ⟨smallPool_eq, ?_⟩
  rintro ⟨h, _⟩
  have he : ((smallPool.rewrite fun w => store32 w 0 100).call (.malloc 64)).map (fun _ => ()) = .error .outOfBounds := by
    decide +kernel
  refine h.bounds ?_
  cases hc : (smallPool.rewrite fun w => store32 w 0 100).call (.malloc 64) with
  | error e =>
      rw [hc] at he
      exact congrArg Except.error (Except.error.inj he)
  | ok x =>
      rw [hc] at he
      cases he

/-! ## 割り当ての約束 -/

/-- プールを割り当てと、割り当てた領域への書き込みだけが書くとき、到達できるどの状態でも、割り当ての約束が成り立つ。 -/
theorem mem5_contract {t : Objects} (hinit : memsys5Init z p r = .ok m) (hsize : m.nBlock * m.szAtom < 2147483648)
    (h : Objects.Reach m t) : t.arena.Contract m := by
  obtain ⟨free, hh⟩ := memsys5Init_heap hinit hsize
  obtain ⟨_, ⟨c, hc⟩, _⟩ := memsys5Init_shape hinit
  exact (h.sound hh hc).arena.contract hh hc

/-- 領域がまだないプール。 -/
def emptyPool : Objects := ⟨⟨smallPool, []⟩, fun _ _ => none⟩

/-- 二つの領域を割り当てて書き、空きが足りない割り当てのあとで、初めの領域を解放する。 -/
def splitOps : List Objects.Op :=
  [.malloc 20, .write ⟨0, 20⟩ 5 7, .malloc 16, .write ⟨32, 16⟩ 0 9, .malloc 64, .free ⟨0, 20⟩]

theorem smallPool_contract : ∃ t, emptyPool.run splitOps = .ok t ∧ t.arena.live = [⟨32, 16⟩] ∧
    (memsys5Malloc t.arena.mem 64).map Prod.snd = .ok none ∧
    (memsys5Malloc t.arena.mem 32).map Prod.snd = .ok (some 0) ∧
    memsys5Init (fun _ => 0) 68 mnReq = .ok smallPool ∧ smallPool.nBlock * smallPool.szAtom < 2147483648 ∧
    Objects.Reach smallPool t ∧ t.arena.Contract smallPool := by
  have hrun : ∃ t, emptyPool.run splitOps = .ok t ∧ t.arena.live = [⟨32, 16⟩] ∧
      (memsys5Malloc t.arena.mem 64).map Prod.snd = .ok none ∧
      (memsys5Malloc t.arena.mem 32).map Prod.snd = .ok (some 0) := by
    decide +kernel
  obtain ⟨t, ht, hlive, hnull, hsome⟩ := hrun
  have hguard : emptyPool.Guarded splitOps := by decide +kernel
  have hsize : smallPool.nBlock * smallPool.szAtom < 2147483648 := by decide +kernel
  have hr : Objects.Reach smallPool t := Objects.Reach.init.run hguard ht
  exact ⟨t, ht, hlive, hnull, hsome, smallPool_eq, hsize, hr, mem5_contract smallPool_eq hsize hr⟩

/-! ## プールの配置 -/

theorem laidOut_of_heap {free : Nat → List Int} (hinit : memsys5Init z p mnReq = .ok m) (h : m.Heap free ∅) :
    m.LaidOut p := by
  obtain ⟨hs, hn⟩ := memsys5Init_mnReq hinit
  have hsize := h.layout.fits.size
  rw [hs] at hsize
  have hno : int32 (m.nBlock * 16) = m.nBlock * 16 := int32_of_range (by omega) hsize
  have hle : m.nBlock * 17 ≤ p := by omega
  refine ⟨by omega, ?_, ?_, ?_, ?_⟩
  · rw [hs, hno]
  · rw [hs]
    omega
  · unfold Mem5Global.ctrlAddr
    rw [hs, hno]
    omega
  · rw [h.layout.lists.freeBlocks_eq]
    have ht := h.layout.tiling
    rwa [Set.union_empty, Set.union_empty] at ht

/-- 配置がプールに収まるのは、`p_size` の下位 32 ビットが `17 * 2^27` より小さいとき、かつそのときに限る。
それ以上では `nBlock * szAtom` が `int` からあふれ、`aCtrl` がプールの前に出る。 -/
theorem laidOut_iff (z : Memory) (pSize : Nat) :
    (∃ m, memsys5Init z pSize mnReq = .ok m ∧ m.LaidOut pSize) ↔ pSize % 4294967296 < 2281701376 := by
  constructor
  · rintro ⟨m, hinit, _⟩
    obtain ⟨hs, hn⟩ := memsys5Init_mnReq hinit
    have hsize := (memsys5Init_fits hinit).size
    rw [hs] at hsize
    omega
  · intro hlt
    obtain ⟨m, free, hinit, hh⟩ := memsys5Init_progress (z := z) hlt
    exact ⟨m, hinit, laidOut_of_heap hinit hh⟩

/-- 3 GiB のプールでは、初期化がプールの外に書く。 -/
theorem three_gib_not_laidOut : memsys5Init (fun _ => 0) 3221225472 mnReq = .error .outOfBounds ∧
    ¬ ∃ m, memsys5Init (fun _ => 0) 3221225472 mnReq = .ok m ∧ m.LaidOut 3221225472 := by
  have he : memsys5Init (fun _ => 0) 3221225472 mnReq = .error .outOfBounds := by
    refine bind_error_iff.mpr (Or.inr ⟨16, growAtom_mnReq, ?_⟩)
    rw [nBlock_eq]
    exact carve_overflow (by decide) (by decide)
  refine ⟨he, ?_⟩
  rintro ⟨m, hm, _⟩
  cases he.symm.trans hm

end Eleos.Mem5
