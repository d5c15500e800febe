import Eleos.Edger.CodeGen

/-!
# 生成されたコードの実行

確保、解放、`return` を含まない文は、次の文に進み、書き込まない変数を変えない。
-/

namespace Eleos.Edger

variable {w : World} {r r' : Run} {c : Stmt} {cs ds : List Stmt} {x : String}

/-! ## 静かな文 -/

/-- 確保、解放、`return` を含まない。 -/
def Stmt.Silent : Stmt → Prop
  | .malloc _ _ | .free _ | .ret _ => False
  | .seq a b | .ite _ a b => a.Silent ∧ b.Silent
  | _ => True

/-- 書き込む変数。 -/
def Stmt.writes : Stmt → List String
  | .decl _ x _ | .assign (.var x) _ | .addAssign x _ | .malloc x _ | .ocall x _ _ => [x]
  | .seq a b | .ite _ a b => a.writes ++ b.writes
  | _ => []

/-- 履歴と変数 `x` を変えずに、次の文に進む。 -/
def Stmt.Keeps (w : World) (x : String) (c : Stmt) : Prop :=
  ∀ r, ∃ r', c.exec w r = .next r' ∧ r'.log = r.log ∧ r'.vars x = r.vars x

theorem Run.set_vars {y : String} {v : UInt64} : ∀ x ∉ [y], (r.set y v).vars x = r.vars x := by
  intro x hx
  unfold Run.set
  exact Function.update_of_ne (List.ne_of_not_mem_cons hx) v r.vars

theorem Run.set_vars_self {v : UInt64} : (r.set x v).vars x = v := by
  unfold Run.set
  exact Function.update_self x v r.vars

theorem Stmt.Silent.frame (hs : c.Silent) (r : Run) :
    ∃ r', c.exec w r = .next r' ∧ r'.log = r.log ∧ ∀ x ∉ c.writes, r'.vars x = r.vars x := by
  induction c generalizing r with
  | skip => exact ⟨r, rfl, rfl, fun _ _ => rfl⟩
  | pragma m => exact ⟨r, rfl, rfl, fun _ _ => rfl⟩
  | call f a b c => exact ⟨r, rfl, rfl, fun _ _ => rfl⟩
  | decl ty y e => exact ⟨_, rfl, rfl, Run.set_vars⟩
  | assign l e =>
      cases l with
      | var y => exact ⟨_, rfl, rfl, Run.set_vars⟩
      | field p f => exact ⟨r, rfl, rfl, fun _ _ => rfl⟩
      | deref y => exact ⟨r, rfl, rfl, fun _ _ => rfl⟩
  | addAssign y e => exact ⟨_, rfl, rfl, Run.set_vars⟩
  | malloc y e => exact hs.elim
  | free e => exact hs.elim
  | ocall y i e => exact ⟨_, rfl, rfl, Run.set_vars⟩
  | ret e => exact hs.elim
  | seq a b iha ihb =>
      obtain ⟨r₁, h₁, hl₁, hv₁⟩ := iha hs.1 r
      obtain ⟨r₂, h₂, hl₂, hv₂⟩ := ihb hs.2 r₁
      refine ⟨r₂, ?_, hl₂.trans hl₁, ?_⟩
      · rw [Stmt.exec, h₁]
        exact h₂
      · intro x hx
        rw [Stmt.writes, List.mem_append, not_or] at hx
        rw [hv₂ x hx.2, hv₁ x hx.1]
  | ite e a b iha ihb =>
      rw [Stmt.exec]
      split
      · obtain ⟨r₁, h₁, hl₁, hv₁⟩ := iha hs.1 r
        exact ⟨r₁, h₁, hl₁, fun x hx => hv₁ x fun hm => hx (List.mem_append_left _ hm)⟩
      · obtain ⟨r₁, h₁, hl₁, hv₁⟩ := ihb hs.2 r
        exact ⟨r₁, h₁, hl₁, fun x hx => hv₁ x fun hm => hx (List.mem_append_right _ hm)⟩

theorem Stmt.Silent.keeps (hs : c.Silent) (hx : x ∉ c.writes) : c.Keeps w x := by
  intro r
  obtain ⟨r', h, hl, hv⟩ := hs.frame (w := w) r
  exact ⟨r', h, hl, hv x hx⟩

theorem Stmt.Silent.block (h : ∀ c ∈ cs, c.Silent) : (Stmt.block cs).Silent := by
  induction cs with
  | nil => trivial
  | cons c cs ih => exact ⟨h c List.mem_cons_self, ih fun c' hc => h c' (List.mem_cons_of_mem c hc)⟩

/-! ## 文の並び -/

theorem Stmt.exec_append : (Stmt.block (cs ++ ds)).exec w r =
    match (Stmt.block cs).exec w r with
    | .next r' => (Stmt.block ds).exec w r'
    | o => o := by
  induction cs generalizing r with
  | nil => rfl
  | cons c cs ih =>
      show (Stmt.seq c (Stmt.block (cs ++ ds))).exec w r = _
      rw [Stmt.exec]
      show _ = match (Stmt.seq c (Stmt.block cs)).exec w r with
        | .next r' => (Stmt.block ds).exec w r'
        | o => o
      rw [Stmt.exec]
      cases c.exec w r with
      | next r₁ => exact ih
      | ret r₁ => rfl
      | abort r₁ => rfl

theorem Stmt.exec_append_next (h : (Stmt.block cs).exec w r = .next r') :
    (Stmt.block (cs ++ ds)).exec w r = (Stmt.block ds).exec w r' := by
  rw [Stmt.exec_append, h]

theorem Stmt.exec_append_ret (h : (Stmt.block cs).exec w r = .ret r') :
    (Stmt.block (cs ++ ds)).exec w r = .ret r' := by
  rw [Stmt.exec_append, h]

theorem Stmt.exec_append_abort (h : (Stmt.block cs).exec w r = .abort r') :
    (Stmt.block (cs ++ ds)).exec w r = .abort r' := by
  rw [Stmt.exec_append, h]

theorem Stmt.exec_cons_next (h : c.exec w r = .next r') :
    (Stmt.block (c :: cs)).exec w r = (Stmt.block cs).exec w r' := by
  show (Stmt.seq c (Stmt.block cs)).exec w r = _
  rw [Stmt.exec, h]

theorem Stmt.exec_cons_ret (h : c.exec w r = .ret r') : (Stmt.block (c :: cs)).exec w r = .ret r' := by
  show (Stmt.seq c (Stmt.block cs)).exec w r = _
  rw [Stmt.exec, h]

theorem Stmt.exec_cons_abort (h : c.exec w r = .abort r') : (Stmt.block (c :: cs)).exec w r = .abort r' := by
  show (Stmt.seq c (Stmt.block cs)).exec w r = _
  rw [Stmt.exec, h]

theorem Stmt.Keeps.block (h : ∀ c ∈ cs, Stmt.Keeps w x c) : (Stmt.block cs).Keeps w x := by
  induction cs with
  | nil => exact fun r => ⟨r, rfl, rfl, rfl⟩
  | cons c cs ih =>
      intro r
      obtain ⟨r₁, h₁, hl₁, hv₁⟩ := h c List.mem_cons_self r
      obtain ⟨r₂, h₂, hl₂, hv₂⟩ := ih (fun c' hc => h c' (List.mem_cons_of_mem c hc)) r₁
      exact ⟨r₂, (Stmt.exec_cons_next h₁).trans h₂, hl₂.trans hl₁, hv₂.trans hv₁⟩

theorem Stmt.Keeps.append (h : (Stmt.block cs).Keeps w x) (h' : (Stmt.block ds).Keeps w x) :
    (Stmt.block (cs ++ ds)).Keeps w x := by
  intro r
  obtain ⟨r₁, h₁, hl₁, hv₁⟩ := h r
  obtain ⟨r₂, h₂, hl₂, hv₂⟩ := h' r₁
  exact ⟨r₂, (Stmt.exec_append_next h₁).trans h₂, hl₂.trans hl₁, hv₂.trans hv₁⟩

/-! ## 引数の検査 -/

/-- 進むか、`ms` を一回解放して戻る。 -/
def Stmt.Checks (w : World) (c : Stmt) : Prop :=
  ∀ r, r.vars msStructVal ≠ 0 →
    (∃ r', c.exec w r = .next r' ∧ r'.log = r.log ∧ r'.vars msStructVal = r.vars msStructVal) ∨
    ∃ r', c.exec w r = .ret r' ∧ r'.log = r.log ++ [.free (r.vars msStructVal)]

theorem Stmt.Keeps.checks (h : c.Keeps w msStructVal) : c.Checks w := fun r _ => Or.inl (h r)

theorem Stmt.Checks.block (h : ∀ c ∈ cs, Stmt.Checks w c) : (Stmt.block cs).Checks w := by
  induction cs with
  | nil => exact fun r _ => Or.inl ⟨r, rfl, rfl, rfl⟩
  | cons c cs ih =>
      intro r hr
      rcases h c List.mem_cons_self r hr with ⟨r₁, h₁, hl₁, hv₁⟩ | ⟨r₁, h₁, hl₁⟩
      · rw [Stmt.exec_cons_next h₁, ← hl₁, ← hv₁]
        exact ih (fun c' hc => h c' (List.mem_cons_of_mem c hc)) r₁ (by rw [hv₁]; exact hr)
      · exact Or.inr ⟨r₁, Stmt.exec_cons_ret h₁, hl₁⟩

end Eleos.Edger
