import Eleos.Edger.Lemmas.Attr
import Eleos.Edger.Policy

/-!
# 橋渡しの関数の文の実行
-/

namespace Eleos.Edger.Bridge

open Cmd

variable {w : World} {r r' : Run} {x y : Var} {plist : List Pdecl} {cs ds : List Stmt} {P R : Run → Prop} {Q : Post Run}

/-! ## 文の並び -/

theorem Stmt.exec_block (w : World) (cs : List Stmt) :
    (Stmt.block cs).exec w = Cmd.block (cs.map (Stmt.exec w)) := by
  induction cs with
  | nil =>
      funext r
      rfl
  | cons c cs ih =>
      funext r
      change Cmd.seq (c.exec w) ((Stmt.block cs).exec w) r = _
      rw [ih]
      rfl

/-- 文の並びの三つ組。 -/
def Stmt.Ok (w : World) (P : Run → Prop) (cs : List Stmt) (Q : Post Run) : Prop :=
  Triple P ((Stmt.block cs).exec w) Q

namespace Stmt

theorem Ok.append (hc : Stmt.Ok w P cs { Q with next := R }) (hd : Stmt.Ok w R ds Q) : Stmt.Ok w P (cs ++ ds) Q := by
  unfold Stmt.Ok at *
  rw [exec_block] at *
  rw [List.map_append]
  exact hc.append hd

theorem Ok.cons {c : Stmt} (hc : Triple P (c.exec w) { Q with next := R }) (hd : Stmt.Ok w R cs Q) :
    Stmt.Ok w P (c :: cs) Q := Triple.seq hc hd

theorem Ok.nil (h : ∀ r, P r → Q.next r) : Stmt.Ok w P [] Q := h

theorem Ok.single {c : Stmt} (hc : Triple P (c.exec w) Q) : Stmt.Ok w P [c] Q :=
  Ok.cons (R := Q.next) hc fun _ h => h

theorem Ok.pre {P' : Run → Prop} (h : Stmt.Ok w P cs Q) (hP : ∀ r, P' r → P r) : Stmt.Ok w P' cs Q := Triple.pre h hP

/-- 引数ごとの文。`I pds` は、`pds` が残っているときの条件である。 -/
theorem Ok.each {f : Pdecl → List Stmt} {I : List Pdecl → Run → Prop} {pds : List Pdecl}
    (hstep : ∀ pd rest, (pd :: rest) <:+ pds → Stmt.Ok w (I (pd :: rest)) (f pd) { Q with next := I rest })
    (hend : ∀ r, I [] r → Q.next r) : Stmt.Ok w (I pds) (pds.flatMap f) Q := by
  unfold Stmt.Ok at *
  rw [exec_block, List.map_flatMap]
  refine Triple.each (fun pd rest h => ?_) hend
  have hpd := hstep pd rest h
  rwa [exec_block] at hpd

/-- 条件の式が時刻だけを変えるときの分岐。 -/
theorem Ok.ite {c : Expr} {a b : Stmt}
    (ha : ∀ r, P r → (c.eval w r.vars r.clock).1 ≠ 0 → Q.Holds (a.exec w (r.tick (c.eval w r.vars r.clock).2)))
    (hb : ∀ r, P r → (c.eval w r.vars r.clock).1 = 0 → Q.Holds (b.exec w (r.tick (c.eval w r.vars r.clock).2))) :
    Triple P ((Stmt.ite c a b).exec w) Q := by
  intro r hr
  by_cases hc : (c.eval w r.vars r.clock).1 = 0
  · rw [Stmt.exec]
    simpa [hc] using hb r hr hc
  · rw [Stmt.exec]
    simpa [hc] using ha r hr hc

end Stmt

/-! ## 式の値 -/

/-- 時刻は戻らない。 -/
theorem Expr.le_eval {vars : Var → UInt64} (e : Expr) (t : Nat) : t ≤ (e.eval w vars t).2 := by
  induction e generalizing t with
  | var | null | const | num | sizeof | sizeofAt => exact le_rfl
  | field f => exact Nat.le_succ t
  | cast ty e ih => exact ih t
  | paren e ih => exact ih t
  | app f e ih => exact (ih t).trans (Nat.le_succ _)
  | load e ih => exact (ih t).trans (Nat.le_succ _)
  | add a b iha ihb => exact (iha t).trans (ihb _)
  | sub a b iha ihb => exact (iha t).trans (ihb _)
  | mul a b iha ihb => exact (iha t).trans (ihb _)
  | div a b iha ihb => exact (iha t).trans (ihb _)
  | eq a b iha ihb => exact (iha t).trans (ihb _)
  | ne a b iha ihb => exact (iha t).trans (ihb _)
  | ite c a b ihc iha ihb =>
      simp only [Expr.eval]
      split
      · exact (ihc t).trans (iha _)
      · exact (ihc t).trans (ihb _)

theorem le_evalArgs {vars : Var → UInt64} (es : List Expr) (t : Nat) : t ≤ (evalArgs w vars es t).2 := by
  induction es generalizing t with
  | nil => exact le_rfl
  | cons e es ih => exact (e.le_eval t).trans (ih _)

/-- `NULL` との比較の値。 -/
theorem Expr.eval_eq_null {vars : Var → UInt64} {t : Nat} :
    ((Expr.eq (.var x) .null).eval w vars t).1 = 0 ↔ vars x ≠ 0 := by
  rw [Expr.eval]
  by_cases h : vars x = 0
  · simp [Expr.eval, h]
  · simp [Expr.eval, h]

theorem Expr.eval_ne_null {vars : Var → UInt64} {t : Nat} :
    ((Expr.ne (.var x) .null).eval w vars t).1 = 0 ↔ vars x = 0 := by
  rw [Expr.eval]
  by_cases h : vars x = 0
  · simp [Expr.eval, h]
  · simp [Expr.eval, h]

/-! ## 宣言だけの並び -/

def declared (cs : List Stmt) : List Var := cs.filterMap Stmt.declared?

/-- 宣言だけからなる並び。 -/
def Decls (cs : List Stmt) : Prop := ∀ c ∈ cs, ∃ ty x e, c = Stmt.decl ty x e

theorem Decls.append (hc : Decls cs) (hd : Decls ds) : Decls (cs ++ ds) := fun c h =>
  (List.mem_append.mp h).elim (hc c) (hd c)

@[simp] theorem declared_nil : declared [] = [] := rfl

@[simp] theorem declared_decl {ty : String} {e : Expr} : declared (.decl ty x e :: cs) = x :: declared cs := rfl

@[simp] theorem declared_append : declared (cs ++ ds) = declared cs ++ declared ds := List.filterMap_append

/-- `cs` を行うと、履歴は変わらず、宣言する変数のほかも変わらない。 -/
structure Declares (w : World) (cs : List Stmt) (r r' : Run) : Prop where
  run : (Stmt.block cs).exec w r = .next r'
  log : r'.log = r.log
  vars : ∀ x, x ∉ declared cs → r'.vars x = r.vars x

theorem Declares.nil : Declares w [] r r := ⟨rfl, rfl, fun _ _ => rfl⟩

theorem Declares.decl {ty : String} {e : Expr} :
    Declares w [.decl ty x e] r ((r.set x (e.eval w r.vars r.clock).1).tick (e.eval w r.vars r.clock).2) := by
  refine ⟨rfl, rfl, fun y hy => ?_⟩
  have hne : y ≠ x := by simpa using hy
  exact Function.update_of_ne hne ..

theorem Declares.append {r'' : Run} (hc : Declares w cs r r') (hd : Declares w ds r' r'') :
    Declares w (cs ++ ds) r r'' := by
  refine ⟨?_, hd.log.trans hc.log, fun x hx => ?_⟩
  · have h : Stmt.Ok w (fun s => s = r) (cs ++ ds)
        ⟨fun s => s = r'', fun _ => False, fun _ => False, fun _ => False⟩ := by
      refine Stmt.Ok.append (R := fun s => s = r') ?_ ?_
      · rintro _ rfl
        rw [hc.run]
        rfl
      · rintro _ rfl
        rw [hd.run]
        rfl
    have hr := h r rfl
    cases he : (Stmt.block (cs ++ ds)).exec w r with
    | next s =>
        rw [he] at hr
        exact congrArg Exit.next hr
    | jump s =>
        rw [he] at hr
        exact hr.elim
    | ret s =>
        rw [he] at hr
        exact hr.elim
    | trap s =>
        rw [he] at hr
        exact hr.elim
  · rw [declared_append, List.mem_append, not_or] at hx
    exact (hd.vars x hx.2).trans (hc.vars x hx.1)

theorem Decls.run (h : Decls cs) (r : Run) : ∃ r', Declares w cs r r' := by
  induction cs generalizing r with
  | nil => exact ⟨r, .nil⟩
  | cons c cs ih =>
      obtain ⟨ty, x, e, rfl⟩ := h _ List.mem_cons_self
      obtain ⟨r', hr⟩ := ih (fun c hc => h c (List.mem_cons_of_mem _ hc)) _
      exact ⟨r', Declares.decl.append hr⟩

/-! ## 局所変数 -/

/-- 引数 `name` が文字列であれば、その大きさは終わりの 0 を含む。 -/
structure Sized (w : World) (name : String) (attr : PtrAttr) (r : Run) : Prop where
  str : attr.isstr = true → r.vars (.tmp name) ≠ 0 → r.vars (.len name) ≠ 0
  wstr : attr.isstr = false → attr.iswstr = true → r.vars (.tmp name) ≠ 0 →
    ∃ k, (r.vars (.len name)).toNat = (k + 1) * (w.sizeof "wchar_t").toNat

/-- 向きのあるポインタの引数 `name` の局所変数。写しはまだない。 -/
structure Fresh (w : World) (name : String) (attr : PtrAttr) (r : Run) : Prop extends Sized w name attr r where
  inp : r.vars (.inp name) = 0

/-- 同じ値の局所変数に置き換える。 -/
theorem Sized.congr {name : String} {attr : PtrAttr} (h : Sized w name attr r)
    (ht : r'.vars (.tmp name) = r.vars (.tmp name)) (hl : r'.vars (.len name) = r.vars (.len name)) :
    Sized w name attr r' := by
  obtain ⟨hs, hws⟩ := h
  constructor
  · rwa [ht, hl]
  · rwa [ht, hl]

theorem doGenTempVar_decls {s : String} {cache cache' : List String}
    (h : doGenTempVar plist s cache = .ok (cs, cache')) : Decls cs := by
  unfold doGenTempVar at h
  split at h
  · cases h
    exact fun c hc => nomatch hc
  · obtain ⟨ty, _, h⟩ := bind_ok_iff.mp h
    cases h
    intro c hc
    exact ⟨_, _, _, List.mem_singleton.mp hc⟩

theorem genTempVar_decls {v : Option AttrValue} {cache cache' : List String}
    (h : genTempVar plist v cache = .ok (cs, cache')) : Decls cs := by
  unfold genTempVar at h
  split at h
  · exact doGenTempVar_decls h
  · cases h
    exact fun c hc => nomatch hc

theorem genTmpSize_decls {attr : PtrAttr} {cache cache' : List String}
    (h : genTmpSize attr plist cache = .ok (cs, cache')) : Decls cs := by
  obtain ⟨⟨cs₁, c₁⟩, h₁, h⟩ := bind_ok_iff.mp h
  obtain ⟨⟨cs₂, c₂⟩, h₂, h⟩ := bind_ok_iff.mp h
  cases h
  exact (genTempVar_decls h₁).append (genTempVar_decls h₂)

/-- 文字列の大きさは、終わりの 0 を含む。 -/
theorem genPtrSize_str {ty : Atype} {attr : PtrAttr} {name : String} {e : Expr} (hw : w.Sizes)
    (hl : attr.isstr = true ∨ attr.iswstr = true → attr.isary = false)
    (he : genPtrSize ty attr name = .decl "size_t" (.len name) e) (hne : r.vars (.tmp name) ≠ 0) :
    (attr.isstr = true → (e.eval w r.vars r.clock).1 ≠ 0) ∧
      (attr.isstr = false → attr.iswstr = true →
        ∃ k, (e.eval w r.vars r.clock).1.toNat = (k + 1) * (w.sizeof "wchar_t").toNat) := by
  unfold genPtrSize at he
  constructor
  · intro hs
    have hary := hl (Or.inl hs)
    simp only [hary, hs, Bool.false_eq_true, if_false, if_true, Stmt.decl.injEq, true_and] at he
    subst he
    have hlen := hw.strlen r.clock (r.vars (.tmp name))
    simp only [Expr.eval, hne, ne_eq, not_false_eq_true, if_true]
    intro hz
    have := congrArg UInt64.toNat hz
    rw [UInt64.toNat_add] at this
    have h1 : (UInt64.ofInt 1).toNat = 1 := by decide
    rw [h1, Nat.mod_eq_of_lt hlen] at this
    exact absurd this (Nat.succ_ne_zero _)
  · intro hs hws
    have hary := hl (Or.inr hws)
    simp only [hary, hs, hws, Bool.false_eq_true, if_false, if_true, Stmt.decl.injEq, true_and] at he
    subst he
    have hlen := hw.wcslen r.clock (r.vars (.tmp name))
    simp only [Expr.eval, hne, ne_eq, not_false_eq_true, if_true]
    refine ⟨(w.app r.clock "wcslen" (r.vars (.tmp name))).toNat, ?_⟩
    have h1 : (UInt64.ofInt 1).toNat = 1 := by decide
    have hpos : 0 < (w.sizeof "wchar_t").toNat := by
      apply Nat.pos_of_ne_zero
      intro hz
      exact hw.wcharPos (UInt64.toNat_inj.mp hz)
    have hlt : (w.app r.clock "wcslen" (r.vars (.tmp name))).toNat + 1 < 18446744073709551616 :=
      (Nat.le_mul_of_pos_right _ hpos).trans_lt hlen
    rw [UInt64.toNat_mul, UInt64.toNat_add, h1, Nat.mod_eq_of_lt hlt, Nat.mod_eq_of_lt hlen]

/-- 一つの引数の宣言のあと、その局所変数は写しの前の状態にある。 -/
theorem doGenLocalVar_fresh {ty : Atype} {attr : PtrAttr} {name : String} {cache cache' : List String} (hw : w.Sizes)
    (h : doGenLocalVar plist ty attr name cache = .ok (cs, cache'))
    (hl : attr.isstr = true ∨ attr.iswstr = true → attr.isary = false)
    (hchk : attr.direction ≠ .ptrNoDirection → attr.chkptr = true) (hnd : (declared cs).Nodup) (r : Run) :
    ∃ r', Declares w cs r r' ∧ (attr.direction ≠ .ptrNoDirection → Fresh w name attr r' ∧
      .tmp name ∈ declared cs ∧ .len name ∈ declared cs ∧ .inp name ∈ declared cs) := by
  obtain ⟨⟨lens, c⟩, hlen, h⟩ := bind_ok_iff.mp h
  cases h
  unfold lenVar at hlen
  by_cases hdir : attr.direction = .ptrNoDirection
  · simp only [hdir, if_true, List.append_nil]
    have hdecls : Decls lens := by
      split at hlen
      · cases hlen
        exact fun c hc => nomatch hc
      · obtain ⟨⟨sizes, c'⟩, hs, hlen⟩ := bind_ok_iff.mp hlen
        cases hlen
        refine (genTmpSize_decls hs).append fun c hc => ⟨_, _, _, List.mem_singleton.mp hc⟩
    obtain ⟨r', hr⟩ := hdecls.run _
    exact ⟨r', Declares.decl.append hr, fun hne => absurd rfl hne⟩
  · simp only [hdir, if_false, hchk hdir, Bool.true_eq_false] at hlen hnd ⊢
    obtain ⟨⟨sizes, c'⟩, hs, hlen⟩ := bind_ok_iff.mp hlen
    cases hlen
    obtain ⟨e, he⟩ : ∃ e, genPtrSize ty attr name = .decl "size_t" (.len name) e := ⟨_, rfl⟩
    rw [he] at hnd ⊢
    obtain ⟨r₁, hr₁⟩ : ∃ r₁, Declares w [.decl (getTystr ty) (.tmp name) (mkParmAccessor name)] r r₁ := ⟨_, .decl⟩
    obtain ⟨r₂, hr₂⟩ := (genTmpSize_decls hs).run (w := w) r₁
    -- `_len_` の値は、`_tmp_` の値から決まり、どちらもあとの宣言では変わらない。
    have hstr := genPtrSize_str (r := r₂) hw hl he
    refine ⟨_, (hr₁.append (hr₂.append .decl)).append .decl, fun _ => ⟨⟨⟨?_, ?_⟩, ?_⟩, by simp, by simp, by simp⟩⟩
    · intro hs' hne
      simp only [Run.set, Run.tick, ne_eq, reduceCtorEq, not_false_eq_true, Function.update_of_ne, Function.update_self]
        at hne ⊢
      exact (hstr hne).1 hs'
    · intro hs' hws hne
      simp only [Run.set, Run.tick, ne_eq, reduceCtorEq, not_false_eq_true, Function.update_of_ne, Function.update_self]
        at hne ⊢
      exact (hstr hne).2 hs' hws
    · simp [Run.set, Run.tick, Expr.eval]

theorem genLocalVarForForeignArray_fresh {ty : Atype} {attr : PtrAttr} {name : String}
    (hl : attr.isstr = true ∨ attr.iswstr = true → attr.isary = false) (hary : attr.isary = true) (r : Run) :
    ∃ r', Declares w (genLocalVarForForeignArray ty attr name) r r' ∧
      (attr.direction ≠ .ptrNoDirection → Fresh w name attr r' ∧
        .tmp name ∈ declared (genLocalVarForForeignArray ty attr name) ∧
        .len name ∈ declared (genLocalVarForForeignArray ty attr name) ∧
        .inp name ∈ declared (genLocalVarForForeignArray ty attr name)) := by
  unfold genLocalVarForForeignArray
  by_cases hdir : attr.direction = .ptrNoDirection
  · rw [if_pos hdir]
    exact ⟨r, .nil, fun hne => absurd hdir hne⟩
  · rw [if_neg hdir]
    have hnot (hs : attr.isstr = true ∨ attr.iswstr = true) : False := by simp [hl hs] at hary
    refine ⟨_, Declares.decl.append (Declares.decl.append .decl), fun _ => ⟨⟨⟨?_, ?_⟩, ?_⟩, by simp, by simp, by simp⟩⟩
    · exact fun hs => (hnot (Or.inl hs)).elim
    · exact fun _ hs => (hnot (Or.inr hs)).elim
    · simp [Run.set, Run.tick, Expr.eval]

/-- 向きのあるポインタの引数の名前。 -/
def directed (pds : List Pdecl) : List String :=
  pds.filterMap fun pd => if ptrHasDirection pd.1 then some pd.2.identifier else none

@[simp] theorem directed_nil : directed [] = [] := rfl

theorem directed_cons {pd : Pdecl} {pds : List Pdecl} :
    directed (pd :: pds) = if ptrHasDirection pd.1 then pd.2.identifier :: directed pds else directed pds := by
  unfold directed
  rw [List.filterMap_cons]
  split
  · rename_i h
    split at h
    · cases h
    · rename_i hd
      rw [if_neg hd]
  · rename_i h
    split at h
    · rename_i hd
      cases h
      rw [if_pos hd]
    · cases h

theorem mem_directed {name : String} {pds : List Pdecl} :
    name ∈ directed pds ↔
      ∃ ty attr declr, (.ptPtr ty attr, declr) ∈ pds ∧ attr.direction ≠ .ptrNoDirection ∧ declr.identifier = name := by
  unfold directed
  rw [List.mem_filterMap]
  constructor
  · rintro ⟨⟨pt, declr⟩, hpd, h⟩
    cases pt with
    | ptVal ty => cases h
    | ptPtr ty attr =>
        simp only [ptrHasDirection, decide_eq_true_eq, Option.ite_none_right_eq_some, Option.some.injEq] at h
        exact ⟨ty, attr, declr, hpd, h.1, h.2⟩
  · rintro ⟨ty, attr, declr, hpd, hdir, hname⟩
    exact ⟨_, hpd, by simp [ptrHasDirection, hdir, hname]⟩

/-- 引数の条件。 -/
structure Allowed (pd : Pdecl) : Prop where
  lawful : ∀ ty attr declr, pd = (.ptPtr ty attr, declr) → attr.Lawful
  checked : ∀ ty attr declr, pd = (.ptPtr ty attr, declr) → attr.direction ≠ .ptrNoDirection → attr.chkptr = true

/-- 向きのある引数 `pd` の局所変数は、写しの前の状態にある。 -/
def Ready (w : World) (pd : Pdecl) (r : Run) : Prop :=
  ∀ ty attr declr, pd = (.ptPtr ty attr, declr) → attr.direction ≠ .ptrNoDirection →
    Fresh w declr.identifier attr r

/-- 向きのある引数の局所変数を、すべて宣言する。 -/
def Covered (pd : Pdecl) (cs : List Stmt) : Prop :=
  ∀ ty attr declr, pd = (.ptPtr ty attr, declr) → attr.direction ≠ .ptrNoDirection →
    .tmp declr.identifier ∈ declared cs ∧ .len declr.identifier ∈ declared cs ∧ .inp declr.identifier ∈ declared cs

theorem genLocalVar_ready {pd : Pdecl} {cache cache' : List String} (hw : w.Sizes) (ha : Allowed pd)
    (h : genLocalVar plist (convArrayToPtr pd) cache = .ok (cs, cache')) (hnd : (declared cs).Nodup) (r : Run) :
    ∃ r', Declares w cs r r' ∧ Ready w pd r' ∧ Covered pd cs := by
  obtain ⟨pt, declr⟩ := pd
  cases pt with
  | ptVal ty =>
      cases h
      exact ⟨r, .nil, fun _ _ _ he => (nomatch he), fun _ _ _ he => (nomatch he)⟩
  | ptPtr ty attr =>
      have hl := ha.lawful ty attr declr rfl
      have hstr : attr.isstr = true ∨ attr.iswstr = true → attr.isary = false := fun hs => (hl.str hs).1
      have hchk := ha.checked ty attr declr rfl
      -- 配列は、要素の個数の付いたポインタとして宣言する。
      have hclose {r' : Run} (hr : Declares w cs r r')
          (hf : attr.direction ≠ .ptrNoDirection → Fresh w declr.identifier attr r' ∧
            .tmp declr.identifier ∈ declared cs ∧ .len declr.identifier ∈ declared cs ∧
            .inp declr.identifier ∈ declared cs) :
          ∃ r', Declares w cs r r' ∧ Ready w (.ptPtr ty attr, declr) r' ∧ Covered (.ptPtr ty attr, declr) cs := by
        refine ⟨r', hr, ?_, ?_⟩
        · rintro _ _ _ ⟨⟩ hdir
          exact (hf hdir).1
        · rintro _ _ _ ⟨⟩ hdir
          exact (hf hdir).2
      unfold convArrayToPtr genLocalVar at h
      by_cases hary : isArray declr = true
      · simp only [hary, if_true, isForeignArray, Bool.false_eq_true, if_false] at h
        obtain ⟨r', hr, hf⟩ := doGenLocalVar_fresh hw h hstr hchk hnd r
        exact hclose hr fun hdir => ⟨⟨⟨(hf hdir).1.str, (hf hdir).1.wstr⟩, (hf hdir).1.inp⟩, (hf hdir).2⟩
      · simp only [hary, Bool.false_eq_true, if_false] at h
        split at h
        · rename_i hfor
          cases h
          have hisary : attr.isary = true := by
            unfold isForeignArray at hfor
            split at hfor
            · rename_i heq
              cases heq
              exact hfor
            · cases hfor
          obtain ⟨r', hr, hf⟩ := genLocalVarForForeignArray_fresh hstr hisary r
          exact hclose hr hf
        · obtain ⟨r', hr, hf⟩ := doGenLocalVar_fresh hw h hstr hchk hnd r
          exact hclose hr hf

/-- 引数を順に宣言すると、どの引数も写しの前の状態になる。 -/
theorem genLocalVars_ready {pds : List Pdecl} {cache cache' : List String} (hw : w.Sizes)
    (hall : ∀ pd ∈ pds, Allowed pd) (h : genLocalVars plist (pds.map convArrayToPtr) cache = .ok (cs, cache'))
    (hnd : (declared cs).Nodup) (r : Run) :
    ∃ r', Declares w cs r r' ∧ (directed pds).Nodup ∧ ∀ pd ∈ pds, Ready w pd r' ∧ Covered pd cs := by
  induction pds generalizing cache cs r with
  | nil =>
      cases h
      exact ⟨r, .nil, List.nodup_nil, fun _ hpd => nomatch hpd⟩
  | cons pd pds ih =>
      obtain ⟨⟨ds, c₁⟩, h₁, h⟩ := bind_ok_iff.mp h
      obtain ⟨⟨es, c₂⟩, h₂, h⟩ := bind_ok_iff.mp h
      cases h
      rw [declared_append, List.nodup_append] at hnd
      obtain ⟨hnd₁, hnd₂, hdisj⟩ := hnd
      obtain ⟨r₁, hr₁, hpd, hcov⟩ := genLocalVar_ready hw (hall pd List.mem_cons_self) h₁ hnd₁ r
      obtain ⟨r₂, hr₂, hdirs, hpds⟩ := ih (fun p hp => hall p (List.mem_cons_of_mem _ hp)) h₂ hnd₂ r₁
      refine ⟨r₂, hr₁.append hr₂, ?_, ?_⟩
      · rw [directed_cons]
        split
        · rename_i hdir
          refine List.nodup_cons.mpr ⟨?_, hdirs⟩
          intro hmem
          obtain ⟨ty, attr, declr, hp, hd, hname⟩ := mem_directed.mp hmem
          -- 同じ名前であれば、`_in_` の変数を二度宣言する。
          have htail := ((hpds _ hp).2 ty attr declr rfl hd).2.2
          rw [hname] at htail
          obtain ⟨pt, declr'⟩ := pd
          cases pt with
          | ptVal ty' => cases hdir
          | ptPtr ty' attr' =>
              have hhead := (hcov ty' attr' declr' rfl (by simpa [ptrHasDirection] using hdir)).2.2
              exact hdisj _ hhead _ htail rfl
        · exact hdirs
      · intro p hp
        cases List.mem_cons.mp hp with
        | inl hp =>
            subst hp
            refine ⟨?_, fun ty attr declr he hdir => ?_⟩
            · rintro ty attr declr rfl hdir
              obtain ⟨ht, hl, hi⟩ := hcov ty attr declr rfl hdir
              -- あとの宣言は、この引数の局所変数を変えない。
              have hkeep : ∀ x ∈ declared ds, r₂.vars x = r₁.vars x := fun x hx =>
                hr₂.vars x fun hx' => hdisj x hx x hx' rfl
              have hfresh := hpd ty attr declr rfl hdir
              exact ⟨hfresh.toSized.congr (hkeep _ ht) (hkeep _ hl), (hkeep _ hi).trans hfresh.inp⟩
            · obtain ⟨ht, hl, hi⟩ := hcov ty attr declr he hdir
              simp [ht, hl, hi]
        | inr hp =>
            refine ⟨(hpds p hp).1, fun ty attr declr he hdir => ?_⟩
            obtain ⟨ht, hl, hi⟩ := (hpds p hp).2 ty attr declr he hdir
            simp [ht, hl, hi]

end Eleos.Edger.Bridge
