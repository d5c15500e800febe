import Eleos.Edger.Lemmas.Held

/-!
# 橋渡しの関数の段階

検査、写し、呼び出し、書き戻しの順に、段階ごとの条件と、その文の三つ組を置く。
-/

namespace Eleos.Edger.Bridge

open Cmd

variable {w : World} {plist rest : List Pdecl} {pd : Pdecl} {ty : Atype} {attr : PtrAttr} {declr : Declarator}
  {r r' : Run} {m : Monitor} {cache : List String} {N : Run → Prop}

/-- 途中で抜けたときの条件。`err` に飛ぶときは、`err` のラベルがあり、写しの所有が分かっている。 -/
def exits (w : World) (plist : List Pdecl) (N : Run → Prop) : Post Run where
  next := N
  jump r := genErrMark plist = true ∧ ∃ m, Holds w plist (directed plist) r m
  ret r := Clean plist r.log
  trap r := Clean plist r.log

/-- `err` のあとの文は、どこにも飛ばない。 -/
def returns (w : World) (plist : List Pdecl) (N : Run → Prop) : Post Run :=
  { exits w plist N with jump := fun _ => False }

theorem genErrMark_of_mem (hpd : (.ptPtr ty attr, declr) ∈ plist) (hdir : attr.direction ≠ .ptrNoDirection) :
    genErrMark plist = true :=
  List.any_eq_true.mpr ⟨_, hpd, by simpa [ptrHasDirection] using hdir⟩

theorem Ready.congr (h : Ready w pd r) (hi : r'.vars (.inp pd.2.identifier) = r.vars (.inp pd.2.identifier))
    (ht : r'.vars (.tmp pd.2.identifier) = r.vars (.tmp pd.2.identifier))
    (hl : r'.vars (.len pd.2.identifier) = r.vars (.len pd.2.identifier)) : Ready w pd r' := by
  rintro ty attr declr rfl hdir
  have hf := h ty attr declr rfl hdir
  exact ⟨hf.toSized.congr ht hl, hi.trans hf.inp⟩

/-- 向きのある引数は、写しをまだ持たない。 -/
theorem Ready.inp_eq (h : ∀ pd ∈ plist, Ready w pd r) (x : String) (hx : x ∈ directed plist) : r.vars (.inp x) = 0 := by
  obtain ⟨ty, attr, declr, hpd, hdir, rfl⟩ := mem_directed.mp hx
  exact (h _ hpd ty attr declr rfl hdir).inp

/-! ## 検査 -/

/-- 局所変数の宣言のあと。 -/
def Opened (w : World) (plist : List Pdecl) (r : Run) : Prop :=
  (∃ m, Holds w plist [] r m) ∧ ∀ pd ∈ plist, Ready w pd r

theorem Opened.tick (h : Opened w plist r) {t : Nat} (ht : r.clock ≤ t) : Opened w plist (r.tick t) := by
  obtain ⟨⟨m, hm⟩, hready⟩ := h
  exact ⟨⟨m, hm.tick ht⟩, fun pd hpd => (hready pd hpd).congr rfl rfl rfl⟩

theorem Opened.clean (h : Opened w plist r) : Clean plist r.log := h.1.elim fun _ hm => hm.clean

theorem Opened.jump (h : Opened w plist r) (hmark : genErrMark plist = true) (v : UInt64) :
    (exits w plist N).jump (r.set .status v) := by
  obtain ⟨⟨m, hm⟩, hready⟩ := h
  exact ⟨hmark, m, (hm.widen (Ready.inp_eq hready)).setStatus v⟩

/-- 大きさのあふれの検査。要素の大きさが 0 であれば停止する。 -/
theorem ifAbove_ok {cnt size : Expr} {v : String} (hmark : genErrMark plist = true) :
    Triple (Opened w plist) ((Stmt.ifAbove cnt size (gotoErr v)).exec w) (exits w plist (Opened w plist)) := by
  intro r hr
  have hle : r.clock ≤ (size.eval w r.vars (cnt.eval w r.vars r.clock).2).2 := (cnt.le_eval _).trans (size.le_eval _)
  simp only [Stmt.exec]
  split
  · exact (hr.tick hle).clean
  · split
    · exact (hr.tick hle).jump hmark _
    · exact hr.tick hle

theorem genCheckLength_ok (hpd : pd ∈ plist) (ha : Allowed pd) :
    Stmt.Ok w (Opened w plist) (genCheckLength pd) (exits w plist (Opened w plist)) := by
  obtain ⟨pt, declr⟩ := pd
  cases pt with
  | ptVal ty => exact Stmt.Ok.nil fun _ h => h
  | ptPtr ty attr =>
      cases hc : attr.size.count with
      | none =>
          simp only [genCheckLength, hc]
          exact Stmt.Ok.nil fun _ h => h
      | some a =>
          -- `count` のある引数には向きがある。
          have hsize : attr.size ≠ emptyPtrSize := by
            intro he
            rw [he] at hc
            cases hc
          have hmark := genErrMark_of_mem hpd ((ha.lawful ty attr declr rfl).sized hsize).2
          simp only [genCheckLength, hc]
          exact Stmt.Ok.single (ifAbove_ok hmark)

theorem mkCheckPms_ok (fname : String) :
    Triple (Opened w plist) ((mkCheckPms fname).exec w) (exits w plist (Opened w plist)) := by
  intro r hr
  simp only [mkCheckPms, Stmt.exec]
  split
  · exact hr.tick (Expr.le_eval ..)
  · exact (hr.tick (Expr.le_eval ..)).clean

/-- `rest` を除く引数の範囲は、確かめてある。 -/
def Checked (w : World) (plist rest : List Pdecl) (r : Run) : Prop :=
  ∃ m, Holds w plist [] r m ∧ (∀ pd ∈ plist, Ready w pd r) ∧
    ∀ x ∈ directed plist, x ∉ directed rest → r.vars (.tmp x) ≠ 0 → (r.vars (.tmp x), r.vars (.len x)) ∈ m.checked

theorem genCheckPtr_conv :
    genCheckPtr (convArrayToPtr (.ptPtr ty attr, declr)) =
      if attr.chkptr = false then [] else [.checkUnique (.tmp declr.identifier) (.len declr.identifier)] := by
  rw [convArrayToPtr]
  by_cases hary : isArray declr = true
  · rw [if_pos hary]
    rfl
  · rw [if_neg hary]
    rfl

theorem genCheckPtr_ok (ha : Allowed pd) :
    Stmt.Ok w (Checked w plist (pd :: rest)) (genCheckPtr (convArrayToPtr pd))
      (exits w plist (Checked w plist rest)) := by
  obtain ⟨pt, declr⟩ := pd
  cases pt with
  | ptVal ty => exact Stmt.Ok.nil fun _ h => h
  | ptPtr ty attr =>
      have hchk := ha.checked ty attr declr rfl
      -- この引数のほかは、前の段階で確かめてある。
      have hrest {x : String} (hx : x ∉ directed rest) (hne : x ≠ declr.identifier ∨ attr.chkptr = false) :
          x ∉ directed ((.ptPtr ty attr, declr) :: rest) := by
        rw [directed_cons]
        split
        · rename_i hdir
          rw [List.mem_cons, not_or]
          refine ⟨?_, hx⟩
          cases hne with
          | inl hne => exact hne
          | inr hno => simp [hchk (by simpa [ptrHasDirection] using hdir)] at hno
        · exact hx
      rw [genCheckPtr_conv]
      split
      · rename_i hno
        refine Stmt.Ok.nil fun r hr => ?_
        obtain ⟨m, hm, hready, hchecked⟩ := hr
        exact ⟨m, hm, hready, fun x hx hx' => hchecked x hx (hrest hx' (Or.inr hno))⟩
      · refine Stmt.Ok.single fun r hr => ?_
        obtain ⟨m, hm, hready, hchecked⟩ := hr
        rw [Stmt.exec]
        split
        · rename_i hz
          refine ⟨m, hm, hready, fun x hx hx' hne => hchecked x hx (hrest hx' (Or.inl ?_)) hne⟩
          rintro rfl
          exact hne hz
        · split
          · refine ⟨_, hm.check _ _, fun pd hpd => (hready pd hpd).congr rfl rfl rfl, fun x hx hx' hne => ?_⟩
            by_cases hxd : x = declr.identifier
            · subst hxd
              exact List.mem_cons_self
            · exact List.mem_cons_of_mem _ (hchecked x hx (hrest hx' (Or.inl hxd)) hne)
          · exact hm.clean

/-! ## 写し -/

/-- 引数の範囲はすべて確かめてあり、`rest` の引数の写しはまだない。 -/
def Cloning (w : World) (plist rest : List Pdecl) (r : Run) : Prop :=
  ∃ m, Holds w plist (directed plist) r m ∧
    (∀ x ∈ directed plist, r.vars (.tmp x) ≠ 0 → (r.vars (.tmp x), r.vars (.len x)) ∈ m.checked) ∧
    ∀ pd ∈ rest, Ready w pd r

theorem Checked.cloning (h : Checked w plist [] r) : Cloning w plist plist r := by
  obtain ⟨m, hm, hready, hchecked⟩ := h
  exact ⟨m, hm.widen (Ready.inp_eq hready), fun x hx => hchecked x hx List.not_mem_nil, hready⟩

namespace Cloning

theorem tick (h : Cloning w plist rest r) {t : Nat} (ht : r.clock ≤ t) : Cloning w plist rest (r.tick t) := by
  obtain ⟨m, hm, hchecked, hready⟩ := h
  exact ⟨m, hm.tick ht, hchecked, fun pd hpd => (hready pd hpd).congr rfl rfl rfl⟩

theorem jump (h : Cloning w plist rest r) (hmark : genErrMark plist = true) (v : UInt64) :
    (exits w plist N).jump (r.set .status v) := by
  obtain ⟨m, hm, _⟩ := h
  exact ⟨hmark, m, hm.setStatus v⟩

/-- 写しの終わった引数 `x` についての書き込み。 -/
theorem note (h : Cloning w plist rest r) {x : String} {ev : Event} (hx : x ∈ directed plist)
    (hne : r.vars (.inp x) ≠ 0) (hev : ∀ m, m.live (r.vars (.inp x)) = some (r.vars (.len x)) →
      (r.vars (.tmp x), r.vars (.len x)) ∈ m.checked → Monitor.step plist m ev = some m) :
    Cloning w plist rest (r.note ev) := by
  obtain ⟨m, hm, hchecked, hready⟩ := h
  obtain ⟨hlive, hmem⟩ := hm.own x hx hne
  exact ⟨m, hm.note (hev m hlive hmem), hchecked, fun pd hpd => (hready pd hpd).congr rfl rfl rfl⟩

theorem tail (h : Cloning w plist (pd :: rest) r) : Cloning w plist rest r := by
  obtain ⟨m, hm, hchecked, hready⟩ := h
  exact ⟨m, hm, hchecked, fun p hp => hready p (List.mem_cons_of_mem _ hp)⟩

end Cloning

/-- 引数 `x` の写しを確保したあと。 -/
structure Copied (w : World) (plist rest : List Pdecl) (attr : PtrAttr) (x : String) (r : Run) : Prop where
  cloning : Cloning w plist rest r
  sized : Sized w x attr r
  tmp : r.vars (.tmp x) ≠ 0
  inp : r.vars (.inp x) ≠ 0

theorem Copied.tick {x : String} (h : Copied w plist rest attr x r) {t : Nat} (ht : r.clock ≤ t) :
    Copied w plist rest attr x (r.tick t) :=
  ⟨h.cloning.tick ht, h.sized.congr rfl rfl, h.tmp, h.inp⟩

/-- 写しに関わる項目の記録。 -/
theorem Copied.note {x : String} (h : Copied w plist rest attr x r) (hx : x ∈ directed plist) {ev : Event}
    (hev : ∀ m, m.live (r.vars (.inp x)) = some (r.vars (.len x)) →
      (r.vars (.tmp x), r.vars (.len x)) ∈ m.checked → Monitor.step plist m ev = some m) :
    Copied w plist rest attr x (r.note ev) :=
  ⟨h.cloning.note hx h.inp hev, h.sized.congr rfl rfl, h.tmp, h.inp⟩

@[simp] theorem mkInPtrDstName_eval {rdonly : Bool} {x : Var} {vars : Var → UInt64} {t : Nat} :
    (mkInPtrDstName rdonly x).eval w vars t = (vars x, t) := by
  cases rdonly with
  | false => rfl
  | true => rfl

theorem malloc_ok {inPtrType : String} (hx : declr.identifier ∈ directed plist)
    (hnot : declr.identifier ∉ directed rest) (hdir : attr.direction ≠ .ptrNoDirection) :
    Triple (fun r => Cloning w plist ((.ptPtr ty attr, declr) :: rest) r ∧ r.vars (.tmp declr.identifier) ≠ 0)
      ((Stmt.malloc (.inp declr.identifier) inPtrType (.len declr.identifier)).exec w)
      (exits w plist fun r => Cloning w plist rest r ∧ Sized w declr.identifier attr r ∧
        r.vars (.tmp declr.identifier) ≠ 0) := by
  rintro r ⟨⟨m, hm, hchecked, hready⟩, hne⟩
  have hfresh := hready _ List.mem_cons_self ty attr declr rfl hdir
  obtain ⟨r', m', hexec, hvars, hm', hsame⟩ := hm.malloc hx hfresh.inp (hchecked _ hx hne) inPtrType
  have ht (y : String) : r'.vars (.tmp y) = r.vars (.tmp y) := by simp [hvars]
  have hl (y : String) : r'.vars (.len y) = r.vars (.len y) := by simp [hvars]
  rw [hexec]
  refine ⟨⟨m', hm', fun y hy => ?_, fun pd hpd => ?_⟩, hfresh.toSized.congr (ht _) (hl _), (ht _).symm ▸ hne⟩
  · rw [ht, hl, hsame]
    exact hchecked y hy
  · rintro ty' attr' declr' rfl hdir'
    -- 残りの引数は、別の名前を持つ。
    have hother : declr'.identifier ≠ declr.identifier := by
      intro heq
      exact hnot (mem_directed.mpr ⟨ty', attr', declr', hpd, hdir', heq⟩)
    have hf := hready _ (List.mem_cons_of_mem _ hpd) ty' attr' declr' rfl hdir'
    exact ⟨hf.toSized.congr (ht _) (hl _), by simpa [hvars, hother] using hf.inp⟩

theorem mallocOrGoto_ok (inPtrType : String) (hpd : (.ptPtr ty attr, declr) ∈ plist)
    (hnot : declr.identifier ∉ directed rest) (hdir : attr.direction ≠ .ptrNoDirection) :
    Stmt.Ok w (fun r => Cloning w plist ((.ptPtr ty attr, declr) :: rest) r ∧ r.vars (.tmp declr.identifier) ≠ 0)
      (mallocOrGoto inPtrType declr.identifier) (exits w plist (Copied w plist rest attr declr.identifier)) := by
  have hx : declr.identifier ∈ directed plist := mem_directed.mpr ⟨ty, attr, declr, hpd, hdir, rfl⟩
  refine Stmt.Ok.cons (malloc_ok hx hnot hdir) (Stmt.Ok.single (Stmt.Ok.ite ?_ ?_))
  · rintro r ⟨hcloning, hsized, hne⟩ hc
    exact (hcloning.tick le_rfl).jump (genErrMark_of_mem hpd hdir) _
  · rintro r ⟨hcloning, hsized, hne⟩ hc
    exact Copied.tick ⟨hcloning, hsized, hne, Expr.eval_eq_null.mp hc⟩ le_rfl

theorem memcpy_ok {rdonly : Bool} {x : String} (hx : x ∈ directed plist) :
    Triple (Copied w plist rest attr x) ((Stmt.memcpy (mkInPtrDstName rdonly (.inp x)) (.var (.tmp x)) (.len x)).exec w)
      (exits w plist (Copied w plist rest attr x)) := by
  intro r hr
  simp only [Stmt.exec, mkInPtrDstName_eval, Expr.eval]
  refine (hr.tick le_rfl).note hx fun m hlive hmem => ?_
  simp only [Monitor.step]
  exact if_pos (Or.inl ⟨hlive, hmem⟩)

theorem memset_ok {x : String} (hx : x ∈ directed plist) :
    Triple (Copied w plist rest attr x) ((Stmt.memset (.cast "void*" (.var (.inp x))) (.len x)).exec w)
      (exits w plist (Copied w plist rest attr x)) := by
  intro r hr
  simp only [Stmt.exec, Expr.eval]
  refine (hr.tick le_rfl).note hx fun m hlive _ => ?_
  simp only [Monitor.step]
  exact if_pos hlive

/-- 終わりの 0 は、写しの中に書く。 -/
theorem terminate_ok {x : String} (hw : w.Sizes) (hx : x ∈ directed plist)
    (hchar : attr.isstr = true → w.sizeofAt (.inp x) = 1)
    (hwchar : attr.iswstr = true → w.sizeofAt (.inp x) = w.sizeof "wchar_t") :
    Stmt.Ok w (Copied w plist rest attr x) (terminate attr x) (exits w plist (Copied w plist rest attr x)) := by
  have h1 : (UInt64.ofInt 1).toNat = 1 := by decide
  unfold terminate
  split
  · rename_i hs
    refine Stmt.Ok.single fun r hr => ?_
    have hne : (r.vars (.len x)).toNat ≠ 0 := fun h => hr.sized.str hs hr.tmp (UInt64.toNat_inj.mp h)
    simp only [Stmt.exec, Expr.eval, hchar hs]
    refine (hr.tick le_rfl).note hx fun m hlive _ => ?_
    have hsub : (r.vars (.len x) - UInt64.ofInt 1).toNat = (r.vars (.len x)).toNat - 1 := by
      rw [UInt64.toNat_sub_of_le _ _ (UInt64.le_iff_toNat_le.mpr (by omega)), h1]
    have hlive : m.live (r.vars (.inp x)) = some (r.vars (.len x)) := hlive
    simp only [Monitor.step, hlive]
    refine if_pos ?_
    rw [UInt64.mul_one, hsub, UInt64.toNat_one]
    omega
  · split
    · rename_i hs hws
      refine Stmt.Ok.single fun r hr => ?_
      obtain ⟨k, hk⟩ := hr.sized.wstr (by simpa using hs) hws hr.tmp
      simp only [Stmt.exec, Expr.eval, hwchar hws]
      refine (hr.tick le_rfl).note hx fun m hlive _ => ?_
      have hlive : m.live (r.vars (.inp x)) = some (r.vars (.len x)) := hlive
      have hpos : 0 < (w.sizeof "wchar_t").toNat := Nat.pos_of_ne_zero fun h => hw.wcharPos (UInt64.toNat_inj.mp h)
      -- 大きさは、`k + 1` 文字分である。
      have hle : (w.sizeof "wchar_t").toNat ≤ (r.vars (.len x)).toNat := by
        rw [hk, Nat.succ_mul]
        exact Nat.le_add_left _ _
      have hdiv : ((r.vars (.len x) - w.sizeof "wchar_t") / w.sizeof "wchar_t").toNat = k := by
        rw [UInt64.toNat_div, UInt64.toNat_sub_of_le _ _ (UInt64.le_iff_toNat_le.mpr hle), hk, Nat.succ_mul,
          Nat.add_sub_cancel, Nat.mul_div_cancel _ hpos]
      have hoff : ((r.vars (.len x) - w.sizeof "wchar_t") / w.sizeof "wchar_t" * w.sizeof "wchar_t").toNat +
          (w.sizeof "wchar_t").toNat = (r.vars (.len x)).toNat := by
        rw [UInt64.toNat_mul, hdiv, Nat.mod_eq_of_lt, hk, Nat.succ_mul]
        have := (r.vars (.len x)).toNat_lt
        rw [hk, Nat.succ_mul] at this
        omega
      simp only [Monitor.step, hlive]
      exact if_pos hoff.le
    · exact Stmt.Ok.nil fun _ h => h

theorem checkSizefuncPtr_ok (hpd : (.ptPtr ty attr, declr) ∈ plist) (hdir : attr.direction ≠ .ptrNoDirection) :
    Stmt.Ok w (Copied w plist rest attr declr.identifier) (checkSizefuncPtr attr declr.identifier)
      (exits w plist (Copied w plist rest attr declr.identifier)) := by
  unfold checkSizefuncPtr
  split
  · exact Stmt.Ok.nil fun _ h => h
  · refine Stmt.Ok.single (Stmt.Ok.ite ?_ ?_)
    · intro r hr _
      exact (hr.cloning.tick (Expr.le_eval ..)).jump (genErrMark_of_mem hpd hdir) _
    · intro r hr _
      exact hr.tick (Expr.le_eval ..)

/-- `NULL` でない引数だけを写す。 -/
theorem guarded_ok {inPtrType : String} {cs : List Stmt} (hpd : (.ptPtr ty attr, declr) ∈ plist)
    (hnot : declr.identifier ∉ directed rest) (hdir : attr.direction ≠ .ptrNoDirection)
    (hcs : Stmt.Ok w (Copied w plist rest attr declr.identifier) cs
      (exits w plist (Copied w plist rest attr declr.identifier))) :
    Stmt.Ok w (Cloning w plist ((.ptPtr ty attr, declr) :: rest))
      [.ite (.ne (.var (.tmp declr.identifier)) .null) (.block (mallocOrGoto inPtrType declr.identifier ++ cs)) .skip]
      (exits w plist (Cloning w plist rest)) := by
  refine Stmt.Ok.single (Stmt.Ok.ite ?_ ?_)
  · intro r hr hc
    have hne : r.vars (.tmp declr.identifier) ≠ 0 := fun h => hc (Expr.eval_ne_null.mpr h)
    have hblock := Stmt.Ok.append (mallocOrGoto_ok inPtrType hpd hnot hdir) hcs
    refine (hblock.weaken (fun _ h => h) fun e he => ?_) _ ⟨hr.tick le_rfl, hne⟩
    cases e with
    | next r => exact he.cloning
    | jump r => exact he
    | ret r => exact he
    | trap r => exact he
  · intro r hr _
    exact hr.tail.tick le_rfl

theorem cloneInPtr_ok (hw : w.Sizes) (hpd : pd ∈ plist) (hnd : (directed (pd :: rest)).Nodup)
    (hchar : ∀ ty attr declr, pd = (.ptPtr ty attr, declr) → attr.isstr = true → w.sizeofAt (.inp declr.identifier) = 1)
    (hwchar : ∀ ty attr declr, pd = (.ptPtr ty attr, declr) → attr.iswstr = true →
      w.sizeofAt (.inp declr.identifier) = w.sizeof "wchar_t") :
    Stmt.Ok w (Cloning w plist (pd :: rest)) (cloneInPtr pd) (exits w plist (Cloning w plist rest)) := by
  obtain ⟨pt, declr⟩ := pd
  cases pt with
  | ptVal ty => exact Stmt.Ok.nil fun _ h => h.tail
  | ptPtr ty attr =>
      by_cases hno : attr.direction = .ptrNoDirection
      · simp only [cloneInPtr, hno]
        exact Stmt.Ok.nil fun _ h => h.tail
      · have hx : declr.identifier ∈ directed plist := mem_directed.mpr ⟨ty, attr, declr, hpd, hno, rfl⟩
        have hnot : declr.identifier ∉ directed rest := by
          rw [directed_cons, if_pos (by simpa [ptrHasDirection] using hno), List.nodup_cons] at hnd
          exact hnd.1
        have hin : Stmt.Ok w (Copied w plist rest attr declr.identifier)
            (.memcpy (mkInPtrDstName attr.rdonly (.inp declr.identifier)) (.var (.tmp declr.identifier))
              (.len declr.identifier) :: terminate attr declr.identifier ++ checkSizefuncPtr attr declr.identifier)
            (exits w plist (Copied w plist rest attr declr.identifier)) := by
          refine Stmt.Ok.cons (memcpy_ok hx) (Stmt.Ok.append (terminate_ok hw hx ?_ ?_) (checkSizefuncPtr_ok hpd hno))
          · exact hchar ty attr declr rfl
          · exact hwchar ty attr declr rfl
        cases hdir : attr.direction with
        | ptrIn =>
            simp only [cloneInPtr, hdir]
            exact guarded_ok hpd hnot hno hin
        | ptrOut =>
            simp only [cloneInPtr, hdir]
            exact guarded_ok hpd hnot hno (Stmt.Ok.single (memset_ok hx))
        | ptrInOut =>
            simp only [cloneInPtr, hdir]
            exact guarded_ok hpd hnot hno hin
        | ptrNoDirection => exact absurd hdir hno

/-! ## 呼び出し -/

theorem genArg_eval {pt : ParameterType} {vars : Var → UInt64} {t : Nat} (hdir : ptrHasDirection pt = true)
    (hfor : isForeignArray pt = false) :
    ((genArg cache (pt, declr)).eval w vars t).1 = vars (.inp declr.identifier) := by
  have hptr : isPtr pt = true := by
    cases pt with
    | ptVal ty => cases hdir
    | ptPtr ty attr => rfl
  have hname : mkParmNameTbridge cache pt declr = .var (.inp declr.identifier) := by
    simp [mkParmNameTbridge, tbridgeMkParmNameExt, hdir, hfor, hptr]
  simp only [genArg, hname]
  split
  · rfl
  · rfl

/-- 向きのある引数には、写しだけを渡す。 -/
theorem argsOk_genArg {pds : List Pdecl} {t : Nat} (hm : Holds w plist (directed plist) r m) (hsub : pds ⊆ plist) :
    m.argsOk pds (evalArgs w r.vars (pds.map (genArg cache)) t).1 = true := by
  induction pds generalizing t with
  | nil => rfl
  | cons pd pds ih =>
      obtain ⟨pt, declr⟩ := pd
      simp only [List.map_cons, evalArgs, Monitor.argsOk, Bool.and_eq_true]
      refine ⟨?_, ih fun p hp => hsub (List.mem_cons_of_mem _ hp)⟩
      unfold Monitor.argOk
      cases hdir : ptrHasDirection pt with
      | false => rfl
      | true =>
          cases hfor : isForeignArray pt with
          | true => rfl
          | false =>
              rw [genArg_eval hdir hfor]
              have hx : declr.identifier ∈ directed plist := by
                cases pt with
                | ptVal ty => cases hdir
                | ptPtr ty attr =>
                    exact mem_directed.mpr ⟨ty, attr, declr, hsub List.mem_cons_self,
                      by simpa [ptrHasDirection] using hdir, rfl⟩
              by_cases hz : r.vars (.inp declr.identifier) = 0
              · simp [hz]
              · simp [(hm.own _ hx hz).1]

/-- `rest` の引数の写しだけが残っている。 -/
def Returning (w : World) (plist rest : List Pdecl) (r : Run) : Prop := ∃ m, Holds w plist (directed rest) r m

theorem genFuncInvoking_ok {fd : FuncDecl} :
    Triple (Returning w fd.plist fd.plist) ((genFuncInvoking fd cache).exec w)
      (exits w fd.plist (Returning w fd.plist fd.plist)) := by
  rintro r ⟨m, hm⟩
  simp only [genFuncInvoking, Stmt.exec]
  refine ⟨m, (hm.tick (le_evalArgs ..)).note ?_⟩
  simp only [Monitor.step]
  exact if_pos (argsOk_genArg hm (List.Subset.refl _))

/-! ## 書き戻し -/

/-- 引数 `x` の写しと、`rest` の引数の写しが残っている。 -/
def Kept (w : World) (plist rest : List Pdecl) (x : String) (r : Run) : Prop :=
  (∃ m, Holds w plist (x :: directed rest) r m) ∧ r.vars (.inp x) ≠ 0

theorem free_ok {x : String} {e : Expr} (hx : x ∉ directed rest)
    (he : ∀ r : Run, e.eval w r.vars r.clock = (r.vars (.inp x), r.clock)) :
    Triple (Kept w plist rest x) ((Stmt.free e).exec w) (returns w plist (Returning w plist rest)) := by
  rintro r ⟨⟨m, hm⟩, hne⟩
  simp only [Stmt.exec, he]
  exact (hm.tick le_rfl).free hx hne

theorem copyBack_ok {x : String} (hx : x ∉ directed rest) :
    Stmt.Ok w (Kept w plist rest x) [.memcpy (.var (.tmp x)) (.var (.inp x)) (.len x), .free (.var (.inp x))]
      (returns w plist (Returning w plist rest)) := by
  refine Stmt.Ok.cons ?_ (Stmt.Ok.single (free_ok hx fun r => rfl))
  rintro r ⟨⟨m, hm⟩, hne⟩
  obtain ⟨hlive, hmem⟩ := hm.own _ List.mem_cons_self hne
  simp only [Stmt.exec, Expr.eval]
  refine ⟨⟨m, (hm.tick le_rfl).note ?_⟩, hne⟩
  simp only [Monitor.step]
  exact if_pos (Or.inr ⟨hlive, hmem⟩)

/-- 写しがあれば `back` を行い、なければ何もしない。 -/
theorem ifCopied_ok {x : String} {back : Stmt}
    (hback : Triple (Kept w plist rest x) (back.exec w) (returns w plist (Returning w plist rest))) :
    Stmt.Ok w (fun r => ∃ m, Holds w plist (x :: directed rest) r m) [.ite (.var (.inp x)) back .skip]
      (returns w plist (Returning w plist rest)) := by
  refine Stmt.Ok.single (Stmt.Ok.ite ?_ ?_)
  · rintro r ⟨m, hm⟩ hc
    exact hback _ ⟨⟨m, hm.tick le_rfl⟩, hc⟩
  · rintro r ⟨m, hm⟩ hc
    exact ⟨m, (hm.drop hc).tick le_rfl⟩

theorem copyAndFree_ok (hnd : (directed (pd :: rest)).Nodup) :
    Stmt.Ok w (Returning w plist (pd :: rest)) (copyAndFree pd) (returns w plist (Returning w plist rest)) := by
  obtain ⟨pt, declr⟩ := pd
  unfold Returning
  by_cases hhas : ptrHasDirection pt = true
  · rw [directed_cons, if_pos hhas, List.nodup_cons] at hnd
    rw [directed_cons, if_pos hhas]
    cases pt with
    | ptVal ty => cases hhas
    | ptPtr ty attr =>
        cases hdir : attr.direction with
        | ptrIn =>
            simp only [copyAndFree, hdir]
            exact ifCopied_ok (free_ok hnd.1 fun r => mkInPtrDstName_eval)
        | ptrOut =>
            simp only [copyAndFree, hdir]
            exact ifCopied_ok (copyBack_ok hnd.1)
        | ptrInOut =>
            simp only [copyAndFree, hdir]
            exact ifCopied_ok (copyBack_ok hnd.1)
        | ptrNoDirection => simp [ptrHasDirection, hdir] at hhas
  · rw [directed_cons, if_neg hhas]
    cases pt with
    | ptVal ty => exact Stmt.Ok.nil fun _ h => h
    | ptPtr ty attr =>
        have hno : attr.direction = .ptrNoDirection := by simpa [ptrHasDirection] using hhas
        simp only [copyAndFree, hno]
        exact Stmt.Ok.nil fun _ h => h

end Eleos.Edger.Bridge
