import Eleos.Pager.Theorems
import Eleos.Pool.Lemmas.Cipher

/-!
# プールを共有する割り当てと追い出しの性質

条件を満たす操作だけで到達できるすべての状態で、追い出しは割り当ての記録と直接使うブロックを壊さず、追い出したページは
そのまま読み戻せる。条件のない実行では、どちらも成り立たない。
-/

namespace Eleos.Pool

open Eleos.Mem5 (Mem5Global memsys5Init mnReq)
open Eleos.Pager (Config Gcm Sys State pageSize demoGcm demoGcm_correct)

variable {cfg : Config} {G : Gcm} {C C' : World → Op → Prop} {w w' : World} {ops : List Op} {o : Owned} {p : Int}

/-! ## 操作の列 -/

/-- 前提と条件 `C` を、実行のどの時点でも満たす操作の列。 -/
def World.Along (cfg : Config) (G : Gcm) (C : World → Op → Prop) (w : World) : List Op → Prop
  | [] => True
  | op :: ops => Guard cfg w op ∧ C w op ∧ ∀ w', w.step cfg G op = .ok w' → w'.sys.Within cfg ∧ Along cfg G C w' ops

theorem World.Along.reach (hC : ∀ w op, C w op → C' w op) (h : w.Along cfg G C ops) (hw : Reach cfg G C' w)
    (hrun : w.run cfg G ops = .ok w') : Reach cfg G C' w' := by
  induction ops generalizing w with
  | nil =>
      cases hrun
      exact hw
  | cons op ops ih =>
      obtain ⟨w₁, hstep, hrun⟩ := bind_ok_iff.mp hrun
      obtain ⟨hg, hc, hnext⟩ := h
      obtain ⟨hwithin, hrest⟩ := hnext w₁ hstep
      exact ih hrest (.step hw hg (hC w op hc) hstep hwithin) hrun

instance (w : World) (x : Int) : Decidable (w.Inside x) := by
  unfold World.Inside
  infer_instance

instance (cfg : Config) (w : World) (op : Op) : Decidable (Guard cfg w op) :=
  match op with
  | .malloc _ _ => inferInstanceAs (Decidable True)
  | .free o => inferInstanceAs (Decidable (o ∈ w.live))
  | .store o i _ => inferInstanceAs (Decidable (o ∈ w.live ∧ o.use = .direct ∧ (i : Int) < o.alloc.nByte))
  | .aptr op => by
      unfold Guard
      cases op <;> infer_instance

instance decidableAlong (cfg : Config) (G : Gcm) (C : World → Op → Prop) [∀ w op, Decidable (C w op)] :
    (w : World) → (ops : List Op) → Decidable (w.Along cfg G C ops)
  | _, [] => inferInstanceAs (Decidable True)
  | w, op :: ops =>
      have (w' : World) : Decidable (w'.Along cfg G C ops) := decidableAlong cfg G C w' ops
      inferInstanceAs (Decidable (Guard cfg w op ∧ C w op ∧
        ∀ w', w.step cfg G op = .ok w' → w'.sys.Within cfg ∧ w'.Along cfg G C ops))

/-! ## 四枚のページのプール -/

/-- 二枚のページを枠に置く構成。 -/
def fourPages : Config where
  cacheCapacity := 12
  llcCapacity := 8
  poolPages := 4
  slabPtr := 4096
  capacity_pos := Pager.capacity_twelve
  llc_pos := Pager.llc_eight
  poolPages_le := Pager.pool_four
  slabPtr_ge := Pager.slab_page

def fourPool : Mem5Global := (memsys5Init (fun _ => 0) 16384 mnReq).toOption.getD (Mem5.fresh (fun _ => 0) 16 963)

theorem fourPool_eq : memsys5Init (fun _ => 0) 16384 mnReq = .ok fourPool := by
  have h : (memsys5Init (fun _ => 0) 16384 mnReq).toOption.isSome := by decide +kernel
  unfold fourPool
  cases he : memsys5Init (fun _ => 0) 16384 mnReq with
  | error e =>
      rw [he] at h
      cases h
  | ok m => rfl

def fourInit : World :=
  World.init fourPages fourPool (fun _ => 0) (Vector.replicate 16 0) fun k => Vector.replicate 12 (UInt8.ofNat k)

theorem fourInit_reach : Reach fourPages G C fourInit := .init _ _ _ fourPool_eq (by decide)

/-- `hint_write` の立った参照のページを覆う、一つの `Aptr` のブロックがある。何も解放しない。 -/
def Covered (w : World) : Op → Prop
  | .free _ => False
  | .aptr (.read d) | .aptr (.write d _) => ∃ a, w.sys.get d = .ok a ∧ (a.hintWrite = true → ∃ o ∈ w.live,
      o.use = .aptr ∧ o.alloc.ptr ≤ a.addr / pageSize * pageSize ∧
        a.addr / pageSize * pageSize + pageSize ≤ o.alloc.ptr + o.alloc.size w.heap.szAtom)
  | _ => True

instance (w : World) (op : Op) : Decidable (Covered w op) := by
  unfold Covered
  split <;> infer_instance

theorem Covered.careful {K : World → Int → Prop} (op : Op) (h : Covered w op) : Careful K w op := by
  have hderef {d : Nat} (h : ∃ a, w.sys.get d = .ok a ∧ (a.hintWrite = true → ∃ o ∈ w.live,
      o.use = .aptr ∧ o.alloc.ptr ≤ a.addr / pageSize * pageSize ∧
        a.addr / pageSize * pageSize + pageSize ≤ o.alloc.ptr + o.alloc.size w.heap.szAtom)) :
      ∀ a, w.sys.get d = .ok a → a.hintWrite = true → w.Covers (a.addr / pageSize) := by
    intro a ha hh x hx
    obtain ⟨b, hb, hcov⟩ := h
    cases ha.symm.trans hb
    obtain ⟨o, ho, huse, hlo, hhi⟩ := hcov hh
    exact ⟨o, ho, huse, Int.le_trans hlo hx.1, Int.lt_of_lt_of_le hx.2 hhi⟩
  cases op with
  | malloc u n => trivial
  | free o => exact h.elim
  | store o i v => trivial
  | aptr op =>
      cases op with
      | read d => exact hderef h
      | write d v => exact hderef h
      | _ => trivial

/-- ページ 2 の全体のブロックに書き、ページ 0 と 1 を読んで追い出す。間に、直接使うブロックに書く。 -/
def coveredOps : List Op :=
  [.malloc .aptr 4096, .malloc .aptr 8192, .malloc .direct 100, .aptr (.construct 8192 1), .aptr (.hint 0 true),
    .aptr (.write 0 7), .aptr (.reset 0), .aptr (.construct 0 1), .aptr (.read 1), .aptr (.reset 1),
    .aptr (.construct 4096 1), .aptr (.read 2)]

theorem coveredOps_reach {K : World → Int → Prop} : ∃ w, fourInit.run fourPages demoGcm coveredOps = .ok w ∧
    Reach fourPages demoGcm (Careful K) w ∧
    (w.sys.state.llc.get 2).isSome ∧ (w.sys.state.l1.get 2).isNone := by
  have hops : fourInit.Along fourPages demoGcm Covered coveredOps := by decide +kernel
  have hrun : ∃ w, fourInit.run fourPages demoGcm coveredOps = .ok w ∧
      (w.sys.state.llc.get 2).isSome ∧ (w.sys.state.l1.get 2).isNone := by decide +kernel
  obtain ⟨w, hrun, hw⟩ := hrun
  exact ⟨w, hrun, hops.reach (fun _ op hc => hc.careful op) fourInit_reach hrun, hw⟩

/-! ## 追い出しと割り当て -/

/-- `hint_write` の立った参照が `Aptr` のブロックで覆われたページだけを指し、変更の印のあるページに重なるブロックを
解放しなければ、追い出しは、空きのブロックの `Mem5Link`、`aCtrl`、直接使うブロックを変えない。 -/
theorem eviction_spares (h : Reach cfg G (Careful World.Dirty) w) : w.Undamaged cfg G := by
  have hinit : ∀ pool epc key rand p, ¬ State.Dirty (State.init cfg epc pool key rand) p := by
    rintro pool epc key rand p ⟨it, hit, -⟩
    cases hit
  obtain ⟨m, hs⟩ := h.sound (watch_dirty cfg G) hinit fun _ _ hc => hc
  exact hs.undamaged (watch_dirty cfg G)

theorem eviction_spares_covered : ∃ w, fourInit.run fourPages demoGcm coveredOps = .ok w ∧
    Reach fourPages demoGcm (Careful World.Dirty) w ∧ (w.sys.state.llc.get 2).isSome ∧
    w.Undamaged fourPages demoGcm := by
  obtain ⟨w, hrun, hw, hl, -⟩ := coveredOps_reach (K := World.Dirty)
  exact ⟨w, hrun, hw, hl, eviction_spares hw⟩

/-- 16 バイトのブロックに書く。そのページには `aCtrl` がある。ほかの二枚のページを読むと、そのページが追い出される。 -/
def atomOps : List Op :=
  [.malloc .aptr 16, .malloc .aptr 8192, .aptr (.construct 15392 1), .aptr (.hint 0 true), .aptr (.write 0 7),
    .aptr (.reset 0), .aptr (.construct 0 1), .aptr (.read 1), .aptr (.reset 1), .aptr (.construct 4096 1)]

/-- 次の読みの追い出しが、`aCtrl` の先頭のバイトを書き換える。 -/
theorem atomOps_damaged : ∃ w, fourInit.run fourPages demoGcm atomOps = .ok w ∧
    Reach fourPages demoGcm (fun _ _ => True) w ∧ ¬ w.Undamaged fourPages demoGcm := by
  have hops : fourInit.Along fourPages demoGcm (fun _ _ => True) atomOps := by decide +kernel
  have hrun : ∃ w, fourInit.run fourPages demoGcm atomOps = .ok w ∧ Guard fourPages w (.aptr (.read 2)) ∧
      w.heap.nBlock = 963 ∧ w.heap.szAtom = 16 ∧ ∃ w', w.step fourPages demoGcm (.aptr (.read 2)) = .ok w' ∧
        w'.heap.zPool 15408 ≠ w.heap.zPool 15408 := by decide +kernel
  obtain ⟨w, hrun, hg, hn, hA, w', hstep, hne⟩ := hrun
  refine ⟨w, hrun, hops.reach (fun _ _ _ => trivial) fourInit_reach hrun, ?_⟩
  intro h
  refine hne ((h.next _ w' hg hstep).bytes 15408 (Or.inr (Or.inl ?_)))
  rw [hn, hA]
  exact ⟨by decide, by decide⟩

/-! ## 追い出したページの読み戻し -/

/-- さらに、`CryptoCache` に項目のあるページに重なるブロックも解放しなければ、追い出したページの暗号文はプールに残り、
`Aptr` の操作は検査で止まらない。 -/
theorem sealed_intact (hG : G.Correct) (h : Reach cfg G (Careful fun w p => w.Dirty p ∨ w.Stored p) w) :
    w.Intact cfg G := by
  obtain ⟨m, -, hs⟩ := Reach.sealed hG h
  exact hs.intact hG

theorem sealed_intact_covered : ∃ w, fourInit.run fourPages demoGcm coveredOps = .ok w ∧
    Reach fourPages demoGcm (Careful fun w p => w.Dirty p ∨ w.Stored p) w ∧
    (w.sys.state.llc.get 2).isSome ∧ (w.sys.state.l1.get 2).isNone ∧ w.Intact fourPages demoGcm := by
  obtain ⟨w, hrun, hw, hl⟩ := coveredOps_reach (K := fun w p => w.Dirty p ∨ w.Stored p)
  exact ⟨w, hrun, hw, hl.1, hl.2, sealed_intact demoGcm_correct hw⟩

/-- 書いて追い出したページのブロックを解放し、同じ大きさのブロックを割り当て直す。 -/
def recycleOps : List Op :=
  [.malloc .aptr 4096, .malloc .aptr 8192, .aptr (.construct 8192 1), .aptr (.hint 0 true), .aptr (.write 0 7),
    .aptr (.reset 0), .aptr (.construct 0 1), .aptr (.read 1), .aptr (.reset 1), .aptr (.construct 4096 1),
    .aptr (.read 2), .free ⟨⟨8192, 4096⟩, .aptr⟩, .malloc .aptr 4096, .aptr (.construct 8192 1)]

/-- 割り当て直したブロックの最初の読みは、復号の検査で止まる。 -/
theorem recycleOps_aborts : ∃ w, fourInit.run fourPages demoGcm recycleOps = .ok w ∧
    Reach fourPages demoGcm (fun _ _ => True) w ∧ Guard fourPages w (.aptr (.read 3)) ∧
    (w.step fourPages demoGcm (.aptr (.read 3))).map (fun _ => ()) = .error .abort ∧ ¬ w.Intact fourPages demoGcm := by
  have hops : fourInit.Along fourPages demoGcm (fun _ _ => True) recycleOps := by decide +kernel
  have hrun : ∃ w, fourInit.run fourPages demoGcm recycleOps = .ok w ∧ Guard fourPages w (.aptr (.read 3)) ∧
      (w.step fourPages demoGcm (.aptr (.read 3))).map (fun _ => ()) = .error .abort := by decide +kernel
  obtain ⟨w, hrun, hg, habort⟩ := hrun
  refine ⟨w, hrun, hops.reach (fun _ _ _ => trivial) fourInit_reach hrun, hg, habort, ?_⟩
  intro h
  obtain ⟨w', hstep⟩ := h.returns _ hg
  rw [hstep] at habort
  cases habort

end Eleos.Pool
