import Eleos.Pager.Run

/-!
# プールを書き換えるホストのもとでの実行

ホストは、操作の前と、操作の中の追い出しと読み込みの間に、プールの中身を好きなように書き換える。
-/

namespace Eleos.Pager

/-- ホストによるプールの書き換え。 -/
abbrev Host := (Nat → UInt8) → Nat → UInt8

/-- 操作と、その前と途中のホストの書き換え。 -/
structure HostOp where
  before : Host
  during : Host
  op : Op

/-- ホストが書き換えを挟む操作の列。 -/
def Sys.runHost (cfg : Config) (G : Gcm) (s : Sys) : List HostOp → Except Stop Sys
  | [] => .ok s
  | h :: hs => do
      let s := { s with state := { s.state with pool := h.before s.state.pool } }
      let s ← s.step cfg G h.during h.op
      s.runHost cfg G hs

/-! ## 暗号化の履歴 -/

/-- 暗号化した内容。新しい順に並ぶ。 -/
def seals : List Event → List Seal
  | [] => []
  | .evict _ (some e) :: l => e :: seals l
  | _ :: l => seals l

/-- ページ `p` の、変更のある最後の追い出しで暗号化した内容。 -/
def lastSeal : List Event → Int → Option Seal
  | [], _ => none
  | .evict q (some e) :: l, p => if p = q then some e else lastSeal l p
  | _ :: l, p => lastSeal l p

/-- 復号は、それまでの暗号化と同じノンス、暗号文、タグの組でだけ成功している。 -/
def Unforged (l : List Event) : Prop :=
  ∀ l₁ p i e c l₂, l = l₁ ++ .load p i (some e) c :: l₂ →
    ∃ e' ∈ seals l₂, e'.nonce = e.nonce ∧ e'.cipher = e.cipher ∧ e'.tag = e.tag

/-- 履歴 `l` のあとの項目 `ev` は、復号なら、それまでの暗号化と同じノンス、暗号文、タグの組による。 -/
def Event.Genuine (l : List Event) : Event → Prop
  | .load _ _ (some e) _ => ∃ e' ∈ seals l, e'.nonce = e.nonce ∧ e'.cipher = e.cipher ∧ e'.tag = e.tag
  | _ => True

theorem unforged_nil : Unforged [] := by
  intro l₁ p i e c l₂ h
  simp at h

theorem unforged_cons {ev : Event} {l : List Event} : Unforged (ev :: l) ↔ ev.Genuine l ∧ Unforged l := by
  constructor
  · intro h
    refine ⟨?_, fun l₁ p i e c l₂ heq => h (ev :: l₁) p i e c l₂ (congrArg (ev :: ·) heq)⟩
    cases ev with
    | load p i e c =>
        cases e with
        | some e => exact h [] p i e c l rfl
        | none => trivial
    | _ => trivial
  · rintro ⟨hev, h⟩ l₁ p i e c l₂ heq
    cases l₁ with
    | nil =>
        rw [List.nil_append, List.cons.injEq] at heq
        obtain ⟨rfl, rfl⟩ := heq
        exact hev
    | cons ev' l₁ =>
        rw [List.cons_append, List.cons.injEq] at heq
        exact h l₁ p i e c l₂ heq.2

/-- 読み込んだ枠の中身は、同じページの、変更のある最後の追い出しの内容である。変更のある追い出しがなければ復号しない。 -/
def Fresh (l : List Event) : Prop :=
  ∀ l₁ p i e c l₂, l = l₁ ++ .load p i e c :: l₂ →
    (e = none ∧ lastSeal l₂ p = none) ∨ ∃ e₀, lastSeal l₂ p = some e₀ ∧ e ≠ none ∧ c = e₀.plain

/-- 成功した暗号化の結果を復号すると元に戻る。 -/
def Gcm.Inverts (G : Gcm) : Prop :=
  ∀ k n p c t, G.encrypt k n p = some (c, t) → G.decrypt k n c t = some p

/-! ## 偽造のないことの判定 -/

/-- ページの中の位置を、64 を法とする二つの数で表す。 -/
def pagePos (i j : Fin 64) : Fin pageSize := ⟨64 * i + j, by unfold pageSize; omega⟩

theorem exists_pagePos (o : Fin pageSize) : ∃ i j, pagePos i j = o := by
  have ho : (o : Nat) < 64 * 64 := o.isLt
  exact ⟨⟨o / 64, by omega⟩, ⟨o % 64, by omega⟩, Fin.ext (Nat.div_add_mod o 64)⟩

/-- ページの比較。4096 回の入れ子を避けて、64 個ずつ比べる。 -/
instance decidablePageEq (c c' : Page) : Decidable (c = c') :=
  decidable_of_iff (∀ i j, c (pagePos i j) = c' (pagePos i j))
    ⟨fun h => funext fun o => by obtain ⟨i, j, rfl⟩ := exists_pagePos o; exact h i j, fun h _ _ => h ▸ rfl⟩

instance (l : List Event) : (ev : Event) → Decidable (ev.Genuine l)
  | .load _ _ (some e) _ =>
      inferInstanceAs (Decidable (∃ e' ∈ seals l, e'.nonce = e.nonce ∧ e'.cipher = e.cipher ∧ e'.tag = e.tag))
  | .load _ _ none _ | .evict _ _ | .read _ _ | .write _ _ => isTrue trivial

instance decidableUnforged : (l : List Event) → Decidable (Unforged l)
  | [] => isTrue unforged_nil
  | ev :: l =>
      have := decidableUnforged l
      decidable_of_iff (ev.Genuine l ∧ Unforged l) unforged_cons.symm

end Eleos.Pager
