import Eleos.Edger.Lemmas.Stages

/-!
# 橋渡しの関数の安全性

どの宣言から生成した橋渡しの関数も、ホストが信頼できないメモリをどのように変えても、決まりを守って戻る。
-/

namespace Eleos.Edger.Bridge

open Cmd

variable {w : World} {fd : FuncDecl} {f : Func} {plist : List Pdecl} {cs : List Stmt} {cache : List String}

/-- 呼び出しの初めの状態。 -/
def start (w : World) : Run := { vars := w.vars, clock := 0, log := [] }

theorem Holds.start {r : Run} (h : r.log = []) : Holds w plist [] r .start :=
  ⟨by rw [h]; rfl, fun x hx => absurd hx List.not_mem_nil, fun p hp => absurd rfl hp,
    fun x hx => absurd hx List.not_mem_nil⟩

theorem Declared.allowed (hd : Declared fd) (hu : NoUserCheck fd) : ∀ pd ∈ fd.plist, Allowed pd := by
  intro pd hpd
  constructor
  · rintro ty attr declr rfl
    exact (hd.parsed ty attr declr hpd).lawful
  · rintro ty attr declr rfl hdir
    exact hu ty attr declr hpd hdir

/-- 局所変数を宣言すると、検査の前の条件が成り立つ。 -/
theorem localVars_ok (hd : Declared fd) (hu : NoUserCheck fd) (hw : w.Sizes)
    (h : genTbridgeLocalVars fd.plist = .ok (cs, cache)) :
    (∃ r, Declares w cs (start w) r ∧ Opened w fd.plist r) ∧ (directed fd.plist).Nodup := by
  have hnd := hd.distinct cs cache h
  obtain ⟨⟨ds, c⟩, hlocal, h⟩ := bind_ok_iff.mp h
  cases h
  obtain ⟨r₁, hr₁⟩ : ∃ r₁, Declares w [.decl "sgx_status_t" .status (.const "SGX_SUCCESS")] (start w) r₁ := ⟨_, .decl⟩
  obtain ⟨r₂, hr₂, hdirs, hready⟩ := genLocalVars_ready hw (hd.allowed hu) hlocal (List.nodup_cons.mp hnd).2 r₁
  have hr := hr₁.append hr₂
  exact ⟨⟨r₂, hr, ⟨_, Holds.start hr.log⟩, fun pd hpd => (hready pd hpd).1⟩, hdirs⟩

/-- 関数の終わり方。 -/
def finished (plist : List Pdecl) : Post Run where
  next _ := False
  jump _ := False
  ret r := Clean plist r.log
  trap r := Clean plist r.log

theorem genCheckTbridgeLengthOverflow_ok (ha : ∀ pd ∈ plist, Allowed pd) :
    Stmt.Ok w (Opened w plist) (genCheckTbridgeLengthOverflow plist) (exits w plist (Opened w plist)) := by
  refine Stmt.Ok.each (I := fun _ => Opened w plist) (fun pd rest hsuffix => ?_) fun r hr => hr
  have hpd : pd ∈ plist := hsuffix.mem List.mem_cons_self
  exact genCheckLength_ok hpd (ha pd hpd)

theorem genCheckTbridgePtrParms_ok (ha : ∀ pd ∈ plist, Allowed pd) :
    Stmt.Ok w (Opened w plist) (genCheckTbridgePtrParms plist) (exits w plist (Cloning w plist plist)) := by
  unfold genCheckTbridgePtrParms
  rw [List.flatMap_map]
  refine Stmt.Ok.pre (P := Checked w plist plist) ?_ ?_
  · refine Stmt.Ok.each (I := Checked w plist) (fun pd rest hsuffix => ?_) fun r hr => hr.cloning
    exact genCheckPtr_ok (ha pd (hsuffix.mem List.mem_cons_self))
  · rintro r ⟨⟨m, hm⟩, hready⟩
    exact ⟨m, hm, hready, fun x hx hx' => absurd hx hx'⟩

theorem genParmPtrDirectionPre_ok (hs : w.Sane fd) (hdirs : (directed fd.plist).Nodup) :
    Stmt.Ok w (Cloning w fd.plist fd.plist) (genParmPtrDirectionPre fd.plist)
      (exits w fd.plist (Returning w fd.plist fd.plist)) := by
  refine Stmt.Ok.each (I := Cloning w fd.plist) (fun pd rest hsuffix => ?_) fun r hr => ?_
  · have hpd : pd ∈ fd.plist := hsuffix.mem List.mem_cons_self
    refine cloneInPtr_ok hs.toSizes hpd (hdirs.sublist (hsuffix.sublist.filterMap _)) ?_ ?_
    · rintro ty attr declr rfl
      exact hs.char ty attr declr hpd
    · rintro ty attr declr rfl
      exact hs.wchar ty attr declr hpd
  · obtain ⟨m, hm, _⟩ := hr
    exact ⟨m, hm⟩

theorem post_ok (hdirs : (directed plist).Nodup) :
    Stmt.Ok w (Returning w plist plist) (genParmPtrDirectionPost plist ++ [.ret .status]) (finished plist) := by
  refine Stmt.Ok.append (R := Returning w plist []) ?_ (Stmt.Ok.single ?_)
  · refine Stmt.Ok.each (I := Returning w plist) (fun pd rest hsuffix => ?_) fun r hr => hr
    exact copyAndFree_ok (hdirs.sublist (hsuffix.sublist.filterMap _))
  · rintro r ⟨m, hm⟩
    exact hm.clean

/-- 本体と書き戻しをつなぐ。`err` のラベルがなければ、本体は `err` に飛ばない。 -/
theorem Func.exec_ok (herr : f.err = genErrMark plist)
    (hbody : Stmt.Ok w (fun r => r = start w) f.body (exits w plist (Returning w plist plist)))
    (hpost : Stmt.Ok w (Returning w plist plist) f.post (finished plist)) : (finished plist).Holds (f.exec w) := by
  unfold Func.exec
  cases hmark : f.err with
  | true =>
      refine Triple.label (P := fun r => r = start w) (R := Returning w plist plist) ?_ hpost _ rfl
      refine hbody.weaken (fun _ h => h) fun e he => ?_
      cases e with
      | next r => exact he
      | jump r => exact he.2
      | ret r => exact he
      | trap r => exact he
  | false =>
      refine Triple.seq (P := fun r => r = start w) (R := Returning w plist plist) ?_ hpost _ rfl
      refine hbody.weaken (fun _ h => h) fun e he => ?_
      cases e with
      | next r => exact he
      | jump r =>
          have := herr.trans he.1
          rw [hmark] at this
          cases this
      | ret r => exact he
      | trap r => exact he

theorem Stmt.Ok.raw {Q : Post Run} {P : Run → Prop} (h : Stmt.Ok w P cs Q) (code : String) :
    Stmt.Ok w P (.raw code :: cs) Q := Stmt.Ok.cons (R := P) (fun _ hr => hr) h

/-- 信頼側の橋渡しの関数は、ホストの振る舞いによらず、決まりを守って終わる。 -/
theorem genFuncTbridge_clean (dummyVar : String) (hd : Declared fd) (hu : NoUserCheck fd) (hs : w.Sane fd)
    (h : genFuncTbridge fd dummyVar = .ok f) :
    ∃ r, (f.exec w = .ret r ∨ f.exec w = .trap r) ∧ Clean fd.plist r.log := by
  have hfinal : (finished fd.plist).Holds (f.exec w) := by
    obtain ⟨⟨locals, cache⟩, hlocals, h⟩ := bind_ok_iff.mp h
    obtain ⟨⟨r₀, hr₀, hopened⟩, hdirs⟩ := localVars_ok hd hu hs.toSizes hlocals
    have hlocal : Stmt.Ok w (fun r => r = start w) locals (exits w fd.plist (Opened w fd.plist)) := by
      rintro _ rfl
      rw [hr₀.run]
      exact hopened
    dsimp only at h
    split at h
    · rename_i hnaked
      cases h
      have hplist : fd.plist = [] := (by simpa [isNakedFunc] using hnaked : fd.rtype = .void ∧ fd.plist = []).2
      refine Func.exec_ok (by rw [hplist]; rfl) (hlocal.append (Stmt.Ok.raw ?_ _)) (Stmt.Ok.single ?_)
      · refine Stmt.Ok.cons (R := Returning w fd.plist fd.plist) ?_ (Stmt.Ok.single genFuncInvoking_ok)
        intro r hr
        rw [Stmt.exec]
        split
        · exact hr.clean
        · exact hr.1.elim fun m hm => ⟨m, hm.widen (Ready.inp_eq hr.2)⟩
      · rintro r ⟨m, hm⟩
        rw [hplist] at hm
        exact hplist ▸ hm.clean
    · cases h
      refine Func.exec_ok rfl ?_ (post_ok hdirs)
      have ha := hd.allowed hu
      have h₁ (code : String) := (hlocal.raw code).append (genCheckTbridgeLengthOverflow_ok ha)
      have h₂ (code : String) :=
        (h₁ code).append (Q := exits w fd.plist (Opened w fd.plist)) (Stmt.Ok.single (mkCheckPms_ok fd.fname))
      have h₃ (code : String) :=
        (h₂ code).append (Q := exits w fd.plist (Cloning w fd.plist fd.plist)) (genCheckTbridgePtrParms_ok ha)
      have h₄ (code : String) := (h₃ code).append (Q := exits w fd.plist (Returning w fd.plist fd.plist))
        (genParmPtrDirectionPre_ok hs hdirs)
      exact (h₄ _).append (Stmt.Ok.single genFuncInvoking_ok)
  cases he : f.exec w with
  | next r =>
      rw [he] at hfinal
      exact hfinal.elim
  | jump r =>
      rw [he] at hfinal
      exact hfinal.elim
  | ret r =>
      rw [he] at hfinal
      exact ⟨r, Or.inl rfl, hfinal⟩
  | trap r =>
      rw [he] at hfinal
      exact ⟨r, Or.inr rfl, hfinal⟩

/-- `public void ecall_fill([in, out, size=len] char *buf, size_t len);` の `buf` の属性。 -/
def bufAttr : PtrAttr :=
  { direction := .ptrInOut, size := { emptyPtrSize with size := some (.aString "len") }, isptr := false, isary := false,
    isstr := false, iswstr := false, rdonly := false, chkptr := true }

def fillDecl : FuncDecl :=
  { fname := "ecall_fill", rtype := .void,
    plist := [(.ptPtr (.ptr (.char .signed)) bufAttr, ⟨"buf", []⟩), (.ptVal .sizeT, ⟨"len", []⟩)] }

example : (genFuncTbridge fillDecl "").map Func.text = .ok
    ("static sgx_status_t SGX_CDECL sgx_ecall_fill(void* pms) \x7b " ++
    "ms_ecall_fill_t* ms = SGX_CAST(ms_ecall_fill_t*, pms); sgx_status_t status = SGX_SUCCESS; " ++
    "char* _tmp_buf = ms->ms_buf; size_t _tmp_len = ms->ms_len; " ++
    "size_t _len_buf = _tmp_len; char* _in_buf = NULL; CHECK_REF_POINTER(pms, sizeof(ms_ecall_fill_t)); " ++
    "CHECK_UNIQUE_POINTER(_tmp_buf, _len_buf); if (_tmp_buf != NULL) \x7b _in_buf = (char*)malloc(_len_buf); " ++
    "if (_in_buf == NULL) \x7b status = SGX_ERROR_OUT_OF_MEMORY; goto err; \x7d " ++
    "memcpy(_in_buf, _tmp_buf, _len_buf); \x7d ecall_fill(_in_buf, _tmp_len); " ++
    "err: if (_in_buf) \x7b memcpy(_tmp_buf, _in_buf, _len_buf); free(_in_buf); \x7d " ++
    "return status; \x7d") := by decide +kernel

/-- 欄を読むたびに異なる値を見せるホスト。時刻 2 の `malloc` だけが成功する。 -/
def shiftingHost : World where
  vars _ := 0
  pms := 4096
  const _ := 0
  sizeof _ := 4
  sizeofAt _ := 1
  field t _ := 8192 + 64 * UInt64.ofNat t
  app _ _ _ := 0
  load _ _ := 0
  outside _ _ := true
  malloc t := if t = 2 then 65536 else 0
  fresh i j h hne := by
    by_cases hi : i = 2
    · by_cases hj : j = 2
      · rw [hi, hj]
      · simp [hi, hj] at h
    · simp [hi] at hne

theorem genFuncTbridge_clean_fill : ∃ f, genFuncTbridge fillDecl "" = .ok f ∧
    ∃ r, (f.exec shiftingHost = .ret r ∨ f.exec shiftingHost = .trap r) ∧ Clean fillDecl.plist r.log := by
  have hattr (ty : Atype) (attr : PtrAttr) (declr : Declarator) (h : (.ptPtr ty attr, declr) ∈ fillDecl.plist) :
      attr = bufAttr := by
    simp only [fillDecl, List.mem_cons, Prod.mk.injEq, ParameterType.ptPtr.injEq, reduceCtorEq, false_and,
      List.not_mem_nil, or_false] at h
    exact h.1.2
  have hd : Declared fillDecl := by
    constructor
    · intro ty attr declr h
      refine ⟨[("in", .aString ""), ("out", .aString ""), ("size", .aString "len")], bufAttr, rfl, Or.inl ?_⟩
      exact hattr ty attr declr h
    · intro cs cache h
      have hlocals : genTbridgeLocalVars fillDecl.plist = .ok (_, _) := rfl
      rw [hlocals] at h
      cases h
      decide
  have hu : NoUserCheck fillDecl := by
    intro ty attr declr h _
    rw [hattr ty attr declr h]
    rfl
  have hs : shiftingHost.Sane fillDecl := by
    have hstrlen : (0 : UInt64).toNat + 1 < 18446744073709551616 := by decide
    have hwcslen : ((0 : UInt64).toNat + 1) * (4 : UInt64).toNat < 18446744073709551616 := by decide
    refine ⟨⟨by decide, fun _ _ => hstrlen, fun _ _ => hwcslen⟩, ?_, ?_⟩
    · exact fun _ _ _ _ _ => rfl
    · intro ty attr declr h hws
      rw [hattr ty attr declr h] at hws
      cases hws
  exact ⟨_, rfl, genFuncTbridge_clean "" hd hu hs rfl⟩

end Eleos.Edger.Bridge
