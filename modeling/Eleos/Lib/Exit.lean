import Mathlib.Data.List.Basic

/-!
# 途中で抜ける命令

状態を変える命令は、次に進むか、ラベルに飛ぶか、戻るか、停止する。終わり方ごとの事後条件による三つ組と、その規則を置く。
-/

namespace Eleos

/-- 命令の終わり方。 -/
inductive Exit (σ : Type) where
  | next (s : σ)
  | jump (s : σ)
  | ret (s : σ)
  | trap (s : σ)

abbrev Cmd (σ : Type) := σ → Exit σ

/-- 終わり方ごとの事後条件。 -/
structure Post (σ : Type) where
  next : σ → Prop
  jump : σ → Prop
  ret : σ → Prop
  trap : σ → Prop

def Post.Holds {σ : Type} (Q : Post σ) : Exit σ → Prop
  | .next s => Q.next s
  | .jump s => Q.jump s
  | .ret s => Q.ret s
  | .trap s => Q.trap s

namespace Cmd

variable {σ α : Type} {c d : Cmd σ} {P P' R : σ → Prop} {Q Q' : Post σ}

def skip : Cmd σ := .next

def seq (c d : Cmd σ) : Cmd σ := fun s =>
  match c s with
  | .next s => d s
  | e => e

def block (cs : List (Cmd σ)) : Cmd σ := cs.foldr seq skip

/-- ラベルの前の部分 `c` と、ラベルの後ろの部分 `d`。 -/
def label (c d : Cmd σ) : Cmd σ := fun s =>
  match c s with
  | .next s | .jump s => d s
  | e => e

/-- 事前条件 `P` のもとで、`c` はどのように終わっても `Q` を満たす。 -/
def Triple (P : σ → Prop) (c : Cmd σ) (Q : Post σ) : Prop := ∀ s, P s → Q.Holds (c s)

theorem Triple.weaken (h : Triple P c Q) (hP : ∀ s, P' s → P s) (hQ : ∀ e, Q.Holds e → Q'.Holds e) :
    Triple P' c Q' := fun s hs => hQ _ (h s (hP s hs))

theorem Triple.pre (h : Triple P c Q) (hP : ∀ s, P' s → P s) : Triple P' c Q := h.weaken hP fun _ he => he

/-- 前の命令が次に進んだときの条件 `R` を挟む。 -/
theorem Triple.seq (hc : Triple P c { Q with next := R }) (hd : Triple R d Q) : Triple P (seq c d) Q := by
  intro s hs
  have hc := hc s hs
  unfold Cmd.seq
  cases he : c s with
  | next s' =>
      rw [he] at hc
      exact hd s' hc
  | jump s' =>
      rw [he] at hc
      exact hc
  | ret s' =>
      rw [he] at hc
      exact hc
  | trap s' =>
      rw [he] at hc
      exact hc

theorem Triple.label (hc : Triple P c { Q with next := R, jump := R }) (hd : Triple R d Q) :
    Triple P (label c d) Q := by
  intro s hs
  have hc := hc s hs
  unfold Cmd.label
  cases he : c s with
  | next s' =>
      rw [he] at hc
      exact hd s' hc
  | jump s' =>
      rw [he] at hc
      exact hd s' hc
  | ret s' =>
      rw [he] at hc
      exact hc
  | trap s' =>
      rw [he] at hc
      exact hc

theorem Triple.append {cs ds : List (Cmd σ)} (hc : Triple P (block cs) { Q with next := R })
    (hd : Triple R (block ds) Q) : Triple P (block (cs ++ ds)) Q := by
  induction cs generalizing P with
  | nil => exact hd.pre hc
  | cons c cs ih =>
      intro s hs
      have hcs := hc s hs
      simp only [block, List.cons_append, List.foldr_cons, Cmd.seq] at hcs ⊢
      cases he : c s with
      | next s' =>
          rw [he] at hcs
          have hrest : Triple (fun t => t = s') (block cs) { Q with next := R } := by
            rintro _ rfl
            exact hcs
          exact ih hrest s' rfl
      | jump s' =>
          rw [he] at hcs
          exact hcs
      | ret s' =>
          rw [he] at hcs
          exact hcs
      | trap s' =>
          rw [he] at hcs
          exact hcs

/-- 並びの要素ごとの命令。`I xs` は、`xs` が残っているときの条件である。 -/
theorem Triple.each {f : α → List (Cmd σ)} {I : List α → σ → Prop} {xs : List α}
    (hstep : ∀ x ys, (x :: ys) <:+ xs → Triple (I (x :: ys)) (block (f x)) { Q with next := I ys })
    (hend : ∀ s, I [] s → Q.next s) : Triple (I xs) (block (xs.flatMap f)) Q := by
  induction xs with
  | nil => exact hend
  | cons x xs ih =>
      rw [List.flatMap_cons]
      exact (hstep x xs List.suffix_rfl).append (ih fun y ys h => hstep y ys (h.trans (List.suffix_cons x xs)))

end Cmd

end Eleos
