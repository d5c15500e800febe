import Eleos.Direct.Lemmas.System

/-!
# 部分ページの構成の読み書きの整合

部分ページの構成でも、書き込んだ番地の読みは最後に書き込んだ値を返す。
-/

namespace Eleos.Direct

open Eleos.Pager (Config Key Nonce Coherent)

variable {cfg : Config} {G : Gcm}

/-- 使い方の条件を満たす操作の列は最後まで進み、書き込みのある番地の読みは最後に書き込んだ値を返す。 -/
theorem direct_coherent {epc pool : Nat → UInt8} {key : Key} {rand : Nat → Nonce} {ops : List Op} (hG : G.Correct)
    (hops : Admissible cfg G (Sys.init cfg epc pool key rand) ops) :
    ∃ s, (Sys.init cfg epc pool key rand).run cfg G ops = .ok s ∧ Coherent s.state.trace := by
  obtain ⟨s, hrun, hs⟩ := (Sys.init_good cfg epc pool key rand).run hG hops
  exact ⟨s, hrun, hs.coherent⟩

/-- ノンスを足す暗号と、先頭のバイトによるタグ。 -/
def subGcm : Gcm where
  encrypt := fun _ n p => some (fun o => p o + n.get ⟨0, Pager.nonce_pos⟩, Vector.replicate 16 (p ⟨0, subPageSize_pos⟩))
  decrypt := fun _ n c t =>
    if t = Vector.replicate 16 (c ⟨0, subPageSize_pos⟩ - n.get ⟨0, Pager.nonce_pos⟩) then some fun o => c o - n.get ⟨0, Pager.nonce_pos⟩ else none

theorem subGcm_correct : subGcm.Correct := by
  intro k n p
  refine ⟨_, _, rfl, ?_⟩
  simp [subGcm]

def subConfig : Config where
  cacheCapacity := 12
  llcCapacity := 8
  poolPages := 64
  slabPtr := 4096
  capacity_pos := Pager.capacity_twelve
  llc_pos := Pager.llc_eight
  poolPages_le := Pager.pool_sixtyFour
  slabPtr_ge := Pager.slab_page

def subInit : Sys :=
  Sys.init subConfig (fun _ => 0) (fun _ => 0) (Vector.replicate 16 0) fun k => Vector.replicate 12 (UInt8.ofNat k)

/-- 二つの `Aptr` がページ 0 の部分ページ 0 と 1 に書く。`Aptr` 0 は部分ページ 1 に移って読み、`Aptr` 1 が離れたあと
ページ 0 を表から外し、部分ページ 0 を読み戻す。 -/
def subOps : List Op :=
  [.construct 0 1, .hint 0 true, .write 0 7, .construct 256 1, .hint 1 true, .write 1 9, .move 0 1 256, .read 0,
    .reset 1, .move 0 1 (-256), .read 0, .reset 0, .construct 256 1, .read 2]

theorem direct_coherent_shared : ∃ s, subInit.run subConfig subGcm subOps = .ok s ∧ Coherent s.state.trace :=
  direct_coherent subGcm_correct (by decide +kernel)

-- 表から外したページの部分ページも、書き込んだ値で読み戻される。
example : (subInit.run subConfig subGcm subOps).map (fun s => s.state.trace.filterMap fun
    | .read a v => some (a, v)
    | _ => none) = .ok [(256, 9), (0, 7), (256, 9)] := by
  decide +kernel

end Eleos.Direct
