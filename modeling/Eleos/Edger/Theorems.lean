import Eleos.Edger.Lemmas.Exec
import Mathlib.Order.BooleanAlgebra.Set

/-!
# 代理関数の確保と解放

どの宣言から生成した代理関数についても、`memsys5Malloc` と `memsys5Free` の呼び出しの履歴を求める。
-/

namespace Eleos.Edger

variable {w : World} {r : Run}

/-! ## 生成される文 -/

theorem forChecked_silent {mk : Atype → PtrAttr → String → Stmt} {pd : Pdecl}
    (h : ∀ ty attr name, (mk ty attr name).Silent) : ∀ c ∈ forChecked mk pd, c.Silent := by
  intro c hc
  obtain ⟨pt, declr⟩ := pd
  cases pt with
  | ptVal ty => cases hc
  | ptPtr ty attr =>
      rw [forChecked] at hc
      split at hc
      · cases hc
      · cases List.mem_singleton.mp hc
        exact h ty attr declr.identifier

theorem flatMap_silent {mk : Atype → PtrAttr → String → Stmt} {plist : List Pdecl}
    (h : ∀ ty attr name, (mk ty attr name).Silent) :
    ∀ c ∈ (plist.map convArrayToPtr).flatMap (forChecked mk), c.Silent := by
  intro c hc
  obtain ⟨pd, -, hc⟩ := List.mem_flatMap.mp hc
  exact forChecked_silent h c hc

theorem genTproxyLocalVars_silent (plist : List Pdecl) : ∀ c ∈ genTproxyLocalVars plist, c.Silent := by
  intro c hc
  rcases List.mem_cons.mp hc with rfl | hc
  · trivial
  · have hsize (ty : Atype) (attr : PtrAttr) (name : String) : (genPtrSize ty attr name).Silent := trivial
    exact flatMap_silent hsize c hc

theorem handleOutPtr_keeps (plist : List Pdecl) : (Stmt.block (handleOutPtr plist)).Keeps w msStructVal := by
  refine Stmt.Keeps.block fun c hc => ?_
  obtain ⟨⟨pt, declr⟩, -, hc⟩ := List.mem_flatMap.mp hc
  cases pt with
  | ptVal ty => cases hc
  | ptPtr ty attr =>
      have hcopy : ∀ c' ∈ copyMemory attr declr, c'.Silent ∧ c'.writes = [] := by
        intro c' hc'
        unfold copyMemory at hc'
        cases hdir : attr.direction with
        | ptrIn => simp [hdir] at hc'
        | ptrNoDirection => simp [hdir] at hc'
        | ptrOut =>
            simp only [hdir, List.mem_singleton] at hc'
            subst hc'
            exact ⟨⟨trivial, trivial⟩, rfl⟩
        | ptrInOut =>
            simp only [hdir, List.mem_singleton] at hc'
            subst hc'
            exact ⟨⟨trivial, trivial⟩, rfl⟩
      obtain ⟨hs, hw⟩ := hcopy c hc
      exact hs.keeps (by rw [hw]; exact List.not_mem_nil)

theorem setErrno_keeps (b : Bool) : (Stmt.block (setErrno b)).Keeps w msStructVal := by
  refine Stmt.Keeps.block fun c hc => ?_
  cases b with
  | false => cases hc
  | true =>
      cases List.mem_singleton.mp hc
      exact Stmt.Silent.keeps trivial (by decide)

theorem updateRetval_keeps (rtype : Atype) : (Stmt.block (updateRetval rtype)).Keeps w msStructVal := by
  refine Stmt.Keeps.block fun c hc => ?_
  unfold updateRetval at hc
  split at hc
  · cases hc
  · cases List.mem_singleton.mp hc
    exact Stmt.Silent.keeps ⟨trivial, trivial⟩ List.not_mem_nil

/-- ポインタの検査に失敗したときだけ、`ms` を解放して戻る。 -/
theorem fillChecked_checks {name tystr : String} {fill : Stmt} (h : fill.Silent) (hw : fill.writes = []) :
    (fillChecked name tystr fill).Checks w := by
  intro r hr
  rw [fillChecked, Stmt.exec]
  split
  · refine Or.inl (Stmt.Keeps.block ?_ r)
    intro c hc
    simp only [List.mem_cons, List.not_mem_nil, or_false] at hc
    rcases hc with rfl | rfl | rfl
    · exact Stmt.Silent.keeps trivial List.not_mem_nil
    · exact Stmt.Silent.keeps trivial (show msStructVal ∉ ["__tmp"] by decide)
    · exact h.keeps (by rw [hw]; exact List.not_mem_nil)
  · rw [Stmt.exec]
    split
    · exact Or.inl ⟨r, rfl, rfl, rfl⟩
    · refine Or.inr ⟨r.note (.free (r.vars msStructVal)), ?_, rfl⟩
      have hfree : (Stmt.free (.var msStructVal)).exec w r = .next (r.note (.free (r.vars msStructVal))) := if_neg hr
      rw [Stmt.exec_cons_next hfree]
      rfl

theorem fillMsField_keeps (pd : Pdecl) : (fillMsField pd).Keeps w msStructVal := by
  obtain ⟨pt, declr⟩ := pd
  have hassign (f : String) (e : Expr) : (Stmt.assign (.field msStructVal f) e).Keeps w msStructVal :=
    Stmt.Silent.keeps trivial List.not_mem_nil
  cases pt with
  | ptVal ty =>
      rw [fillMsField]
      split
      · exact hassign _ _
      · exact hassign _ _
  | ptPtr ty attr =>
      rw [fillMsField]
      split
      · split
        · exact hassign _ _
        · split
          · exact hassign _ _
          · exact hassign _ _
      · exact hassign _ _

theorem tproxyFillMsField_checks (pd : Pdecl) : (tproxyFillMsField pd).Checks w := by
  obtain ⟨pt, declr⟩ := pd
  cases pt with
  | ptVal ty =>
      rw [tproxyFillMsField]
      exact (fillMsField_keeps _).checks
  | ptPtr ty attr =>
      rw [tproxyFillMsField]
      dsimp only
      split
      · exact Stmt.Keeps.checks (Stmt.Silent.keeps trivial List.not_mem_nil)
      · split
        · exact Stmt.Keeps.checks (Stmt.Silent.keeps trivial List.not_mem_nil)
        · cases attr.direction with
          | ptrIn => exact fillChecked_checks trivial rfl
          | ptrOut => exact fillChecked_checks trivial rfl
          | ptrInOut => exact fillChecked_checks trivial rfl
          | ptrNoDirection => exact fillChecked_checks trivial rfl

/-! ## 実行の履歴 -/

/-- 代理関数が残す履歴。 -/
def proxyLog (ufunc : UntrustedFunc) (p : UInt64) : List Event :=
  if isNakedFunc ufunc.fdecl = true ∧ ufunc.propagateErrno = false then []
  else if p = 0 then [.malloc 0, .free 0]
  else if isNakedFunc ufunc.fdecl = true then [.malloc p]
  else [.malloc p, .free p]

theorem isNakedFunc_iff {fd : FuncDecl} : isNakedFunc fd = true ↔ fd.rtype = .void ∧ fd.plist = [] := by
  unfold isNakedFunc
  rw [decide_eq_true_eq]

theorem flag_ne_zero {p : Prop} [Decidable p] : flag p ≠ 0 ↔ p := by
  unfold flag
  split
  · exact iff_of_true (by decide) ‹p›
  · exact iff_of_false (by decide) ‹¬p›

/-- 領域を確保するまでの部分。確保に失敗すると、`memsys5Free(NULL)` で止まる。 -/
theorem genOcallocBlock_exec (fname : String) (plist : List Pdecl) :
    (w.malloc = 0 ∧ ∃ r', (Stmt.block (genOcallocBlock fname plist)).exec w r = .abort r' ∧
      r'.log = r.log ++ [.malloc 0, .free 0]) ∨
    w.malloc ≠ 0 ∧ ∃ r', (Stmt.block (genOcallocBlock fname plist)).exec w r = .next r' ∧
      r'.log = r.log ++ [.malloc w.malloc] ∧ r'.vars msStructVal = w.malloc := by
  have hcount (ty : Atype) (attr : PtrAttr) (name : String) : (countOcallocSize ty attr name).Silent := trivial
  have hpre : ∀ c ∈ [Stmt.decl (mkMsStructName fname ++ "*") msStructVal .null,
      .decl "size_t" "ocalloc_size" (.sizeof (mkMsStructName fname)), .decl "void *" "__tmp" .null] ++
      (plist.map convArrayToPtr).flatMap (forChecked countOcallocSize), c.Silent := by
    intro c hc
    rcases List.mem_append.mp hc with hc | hc
    · simp only [List.mem_cons, List.not_mem_nil, or_false] at hc
      rcases hc with rfl | rfl | rfl
      · trivial
      · trivial
      · trivial
    · exact flatMap_silent hcount c hc
  obtain ⟨r₁, h₁, hl₁, -⟩ := (Stmt.Silent.block hpre).frame (w := w) r
  unfold genOcallocBlock
  rw [Stmt.exec_append_next h₁, ← hl₁]
  obtain ⟨r₂, hr₂⟩ : ∃ r₂, r₂ = (r₁.set "__tmp" w.malloc).note (.malloc w.malloc) := ⟨_, rfl⟩
  have hmalloc : (Stmt.malloc "__tmp" (.var "ocalloc_size")).exec w r₁ = .next r₂ := by rw [hr₂]; rfl
  have hlog : r₂.log = r₁.log ++ [.malloc w.malloc] := by rw [hr₂]; rfl
  have htmp : r₂.vars "__tmp" = w.malloc := by
    rw [hr₂]
    show (r₁.set "__tmp" w.malloc).vars "__tmp" = w.malloc
    exact Run.set_vars_self
  have hcond : (Expr.eq (.var "__tmp") .null).eval w r₂ ≠ 0 ↔ w.malloc = 0 := by
    rw [Expr.eval, flag_ne_zero, Expr.eval, Expr.eval, htmp]
  rw [Stmt.exec_cons_next hmalloc]
  by_cases hz : w.malloc = 0
  · have hfree : (Stmt.free (.var "__tmp")).exec w r₂ = .abort (r₂.note (.free 0)) := if_pos (htmp.trans hz)
    refine Or.inl ⟨hz, r₂.note (.free 0), Stmt.exec_cons_abort ?_, ?_⟩
    · rw [Stmt.exec, if_pos (hcond.mpr hz)]
      exact Stmt.exec_cons_abort hfree
    · show r₂.log ++ [.free 0] = _
      rw [hlog, hz, List.append_assoc]
      rfl
  · have hskip : (Stmt.ite (.eq (.var "__tmp") .null)
        (.block [.free (.var "__tmp"), .ret (.var "SGX_ERROR_UNEXPECTED")]) .skip).exec w r₂ = .next r₂ := by
      rw [Stmt.exec, if_neg (fun hc => hz (hcond.mp hc))]
      rfl
    rw [Stmt.exec_cons_next hskip]
    refine Or.inr ⟨hz, _, rfl, hlog, ?_⟩
    rw [Run.set_vars _ (show msStructVal ∉ ["__tmp"] by decide), Run.set_vars_self]
    exact htmp

/-- 終わりの部分。引数も返り値もなければ解放しない。 -/
theorem funcClose_exec (ufunc : UntrustedFunc) (hr : isNakedFunc ufunc.fdecl = true ∨ r.vars msStructVal ≠ 0) :
    ∃ r', (Stmt.block (funcClose ufunc)).exec w r = .ret r' ∧ r'.log =
      r.log ++ if isNakedFunc ufunc.fdecl = true then [] else [.free (r.vars msStructVal)] := by
  obtain ⟨r₁, h₁, hl₁, hv₁⟩ :=
    (handleOutPtr_keeps (w := w) ufunc.fdecl.plist).append (setErrno_keeps ufunc.propagateErrno) r
  unfold funcClose
  rw [List.append_assoc, Stmt.exec_append_next h₁, ← hl₁, ← hv₁]
  unfold genOcfree
  by_cases hn : isNakedFunc ufunc.fdecl = true
  · rw [if_pos hn, if_pos (isNakedFunc_iff.mp hn), List.append_nil]
    exact ⟨r₁, rfl, rfl⟩
  · rw [if_neg hn, if_neg (fun hc => hn (isNakedFunc_iff.mpr hc))]
    have hms : r₁.vars msStructVal ≠ 0 := by
      rw [hv₁]
      exact hr.resolve_left hn
    have hfree : (Stmt.free (.var msStructVal)).exec w r₁ = .next (r₁.note (.free (r₁.vars msStructVal))) := if_neg hms
    exact ⟨r₁.note (.free (r₁.vars msStructVal)), Stmt.exec_cons_next hfree, rfl⟩

theorem ocall_keeps (idx : Nat) (e : Expr) : (Stmt.block [.ocall "status" idx e]).Keeps w msStructVal := by
  refine Stmt.Keeps.block fun c hc => ?_
  cases List.mem_singleton.mp hc
  exact Stmt.Silent.keeps trivial (show msStructVal ∉ ["status"] by decide)

theorem genFuncTproxy_log (ufunc : UntrustedFunc) (idx : Nat) (w : World) :
    ((genFuncTproxy ufunc idx).exec w).run.log = proxyLog ufunc w.malloc := by
  obtain ⟨r₁, h₁, hl₁, -⟩ := (Stmt.Silent.block (genTproxyLocalVars_silent ufunc.fdecl.plist)).frame (w := w)
    { vars := w.vars, log := [] }
  unfold genFuncTproxy proxyLog Func.exec
  dsimp only
  by_cases hnull : isNakedFunc ufunc.fdecl = true ∧ ufunc.propagateErrno = false
  · rw [if_pos hnull, if_pos (by simpa using hnull)]
    obtain ⟨r₂, h₂, hl₂, -⟩ := ocall_keeps (w := w) idx .null r₁
    obtain ⟨r₃, h₃, hl₃⟩ := funcClose_exec (w := w) (r := r₂) ufunc (Or.inl hnull.1)
    rw [List.append_assoc, Stmt.exec_append_next h₁, Stmt.exec_append_next h₂, h₃]
    show r₃.log = []
    rw [hl₃, if_pos hnull.1, hl₂, hl₁]
    rfl
  · rw [if_neg hnull, if_neg (by simpa using hnull)]
    simp only [List.append_assoc]
    rw [Stmt.exec_append_next h₁]
    rcases genOcallocBlock_exec (w := w) (r := r₁) ufunc.fdecl.fname ufunc.fdecl.plist with
      ⟨hz, r₂, h₂, hl₂⟩ | ⟨hz, r₂, h₂, hl₂, hv₂⟩
    · rw [Stmt.exec_append_abort h₂, if_pos hz]
      show r₂.log = _
      rw [hl₂, hl₁]
      rfl
    · rw [Stmt.exec_append_next h₂, if_neg hz]
      have hfill : (Stmt.block (ufunc.fdecl.plist.map tproxyFillMsField)).Checks w := by
        refine Stmt.Checks.block fun c hc => ?_
        obtain ⟨pd, -, rfl⟩ := List.mem_map.mp hc
        exact tproxyFillMsField_checks pd
      rcases hfill r₂ (by rw [hv₂]; exact hz) with ⟨r₃, h₃, hl₃, hv₃⟩ | ⟨r₃, h₃, hl₃⟩
      · obtain ⟨r₄, h₄, hl₄, hv₄⟩ :=
          (ocall_keeps (w := w) idx (.var msStructVal)).append (updateRetval_keeps ufunc.fdecl.rtype) r₃
        have hms : r₄.vars msStructVal = w.malloc := by rw [hv₄, hv₃, hv₂]
        obtain ⟨r₅, h₅, hl₅⟩ := funcClose_exec (w := w) (r := r₄) ufunc (Or.inr (by rw [hms]; exact hz))
        rw [Stmt.exec_append_next h₃, ← List.append_assoc, Stmt.exec_append_next h₄, h₅]
        show r₅.log = _
        rw [hl₅, hms, hl₄, hl₃, hl₂, hl₁]
        split
        · rfl
        · rfl
      · -- 検査に失敗するのは引数があるときだけである。
        have hn : ¬ isNakedFunc ufunc.fdecl = true := by
          intro hn
          rw [(isNakedFunc_iff.mp hn).2] at h₃
          cases h₃
        rw [Stmt.exec_append_ret h₃, if_neg hn]
        show r₃.log = _
        rw [hl₃, hv₂, hl₂, hl₁]
        rfl

/-! ## 確保と解放の釣り合い -/

/-- 解放した番地の並び。 -/
def frees (l : List Event) : List UInt64 :=
  l.filterMap fun
    | .free p => some p
    | .malloc _ => none

/-- 生きているブロックの集合の変化。 -/
def live (L : Set UInt64) : List Event → Set UInt64
  | [] => L
  | .malloc p :: l => live (if p = 0 then L else insert p L) l
  | .free p :: l => live (L \ {p}) l

/-- 確保に成功すれば、そのブロックをちょうど一回解放する。成功しなければ、解放しない。生きているブロックの集合は変わらない。 -/
structure Balanced (w : World) (f : Func) : Prop where
  once : ∀ p, p ≠ 0 → .malloc p ∈ (f.exec w).run.log → frees (f.exec w).run.log = [p]
  never : (∀ p, p ≠ 0 → .malloc p ∉ (f.exec w).run.log) → frees (f.exec w).run.log = []
  pool : ∀ L, w.malloc ∉ L → live L (f.exec w).run.log = L

/-- 釣り合うのは、引数も返り値もなく `errno` も伝えない関数か、引数か返り値があって確保に成功したとき、かつそのときに限る。 -/
theorem balanced_iff (ufunc : UntrustedFunc) (idx : Nat) (w : World) : Balanced w (genFuncTproxy ufunc idx) ↔
    (isNakedFunc ufunc.fdecl = true ∧ ufunc.propagateErrno = false) ∨
      (isNakedFunc ufunc.fdecl = false ∧ w.malloc ≠ 0) := by
  have hlog := genFuncTproxy_log ufunc idx w
  unfold proxyLog at hlog
  by_cases hnull : isNakedFunc ufunc.fdecl = true ∧ ufunc.propagateErrno = false
  · rw [if_pos hnull] at hlog
    refine iff_of_true ⟨?_, ?_, ?_⟩ (Or.inl hnull)
    · intro p _ hp
      rw [hlog] at hp
      cases hp
    · intro _
      rw [hlog]
      rfl
    · intro L _
      rw [hlog]
      rfl
  · rw [if_neg hnull] at hlog
    by_cases hz : w.malloc = 0
    · rw [if_pos hz] at hlog
      refine iff_of_false ?_ (by simp [hnull, hz])
      intro hb
      have hnever := hb.never
      rw [hlog] at hnever
      exact absurd (hnever fun p hp hm => by simp [hp] at hm) (by decide)
    · rw [if_neg hz] at hlog
      by_cases hn : isNakedFunc ufunc.fdecl = true
      · rw [if_pos hn] at hlog
        refine iff_of_false ?_ ?_
        · intro hb
          have honce := hb.once w.malloc hz
          rw [hlog] at honce
          exact absurd (honce List.mem_cons_self) (List.cons_ne_nil _ _).symm
        · rintro (h | h)
          · exact hnull h
          · exact absurd (hn.symm.trans h.1) (by decide)
      · rw [if_neg hn] at hlog
        refine iff_of_true ⟨?_, ?_, ?_⟩ (Or.inr ⟨Bool.not_eq_true _ ▸ hn, hz⟩)
        · intro p _ hp
          rw [hlog] at hp ⊢
          simp only [List.mem_cons, Event.malloc.injEq, List.not_mem_nil, or_false, reduceCtorEq] at hp
          rw [hp]
          rfl
        · intro hnone
          rw [hlog] at hnone
          exact absurd List.mem_cons_self (hnone w.malloc hz)
        · intro L hL
          rw [hlog]
          show (if w.malloc = 0 then L else insert w.malloc L) \ {w.malloc} = L
          rw [if_neg hz, Set.insert_sdiff_self_of_notMem hL]

/-- `void ocall_flush() propagate_errno;`。 -/
def flushDecl : UntrustedFunc :=
  { fdecl := { fname := "ocall_flush", rtype := .void, plist := [] }, propagateErrno := true }

example : (genFuncTproxy flushDecl 1).text =
    "sgx_status_t SGX_CDECL ocall_flush() \x7b sgx_status_t status = SGX_SUCCESS; ms_ocall_flush_t* ms = NULL; " ++
    "size_t ocalloc_size = sizeof(ms_ocall_flush_t); void * __tmp = NULL; __tmp = memsys5Malloc(ocalloc_size); " ++
    "if (__tmp == NULL) \x7b memsys5Free(__tmp); return SGX_ERROR_UNEXPECTED;  \x7d ms = (ms_ocall_flush_t*)__tmp; " ++
    "__tmp = (void *)((size_t)__tmp + sizeof(ms_ocall_flush_t)); status = rpc_ocall(1, ms); " ++
    "errno = ms->ocall_errno; return status;  \x7d" := by decide +kernel

/-- `int ocall_put([in, string] char *s);`。 -/
def putDecl : UntrustedFunc :=
  { fdecl := { fname := "ocall_put"
               rtype := .int ⟨.signed, .iNone⟩
               plist := [(.ptPtr (.ptr (.char .signed))
                 { direction := .ptrIn, size := emptyPtrSize, isptr := false, isary := false, isstr := true,
                   iswstr := false, rdonly := false, chkptr := true }, ⟨"s", []⟩)] }
    propagateErrno := false }

/-- `memsys5Malloc` が `p` を返す環境。 -/
def worldWith (p : UInt64) : World :=
  { vars := fun _ => 0, sizeof := fun _ => 8, field := fun _ _ => 0, app := fun _ _ => 0, malloc := p, ocall := 0 }

/-- `errno` だけを伝える関数では、確保したブロックを解放しない。確保に失敗すると、`memsys5Free(NULL)` を呼ぶ。 -/
theorem flush_and_put_not_balanced : ¬ Balanced (worldWith 4096) (genFuncTproxy flushDecl 0) ∧
    ¬ Balanced (worldWith 0) (genFuncTproxy putDecl 1) := by
  refine ⟨fun hb => ?_, fun hb => ?_⟩
  · have honce := hb.once 4096 (by decide)
    rw [genFuncTproxy_log] at honce
    exact absurd (honce (by decide)) (by decide)
  · have hnever := hb.never
    rw [genFuncTproxy_log] at hnever
    refine absurd (hnever fun p hp hm => ?_) (by decide)
    simp [proxyLog, putDecl, isNakedFunc, worldWith, hp] at hm

end Eleos.Edger
