import Eleos.Edger.Attr
import Eleos.Edger.BridgeC
import Eleos.Edger.CodeGen

/-!
# 信頼側の橋渡しの関数の生成（`CodeGen.ml`）

`gen_func_tbridge` とそれが使う関数を写す。`failwithf` は `Except.error` である。
-/

namespace Eleos.Edger.Bridge

/-! ## 引数の種類 -/

/-- `is_foreign_array`。 -/
def isForeignArray : ParameterType → Bool
  | .ptPtr (.foreign _) a => a.isary
  | _ => false

/-- `is_ptr`。 -/
def isPtr : ParameterType → Bool
  | .ptVal _ => false
  | .ptPtr _ _ => true

/-- `ptr_has_direction`。 -/
def ptrHasDirection : ParameterType → Bool
  | .ptVal _ => false
  | .ptPtr _ a => a.direction ≠ .ptrNoDirection

/-- `find_param_type`。 -/
def findParamType (name : String) (plist : List Pdecl) : Except String String :=
  match plist.find? fun pd => pd.2.identifier = name with
  | some (pt, _) => .ok (getParamTystr pt)
  | none => .error ("parameter `" ++ name ++ "' not found.")

/-- `mk_parm_accessor`。 -/
def mkParmAccessor (name : String) : Expr := .field (mkMsMemberName name)

/-! ## 局所変数 -/

/-- `do_gen_temp_var`。`cache` は `param_cache` である。 -/
def doGenTempVar (plist : List Pdecl) (s : String) (cache : List String) :
    Except String (List Stmt × List String) :=
  if s ∈ cache then .ok ([], cache)
  else do
    let paramTystr ← findParamType s plist
    .ok ([.decl paramTystr (.tmp s) (mkParmAccessor s)], s :: cache)

/-- `gen_temp_var`。 -/
def genTempVar (plist : List Pdecl) (v : Option AttrValue) (cache : List String) :
    Except String (List Stmt × List String) :=
  match v with
  | some (.aString s) => doGenTempVar plist s cache
  | _ => .ok ([], cache)

/-- `gen_tmp_size`。 -/
def genTmpSize (pattr : PtrAttr) (plist : List Pdecl) (cache : List String) :
    Except String (List Stmt × List String) := do
  let (tmpSize, cache) ← genTempVar plist pattr.size.size cache
  let (tmpCount, cache) ← genTempVar plist pattr.size.count cache
  .ok (tmpSize ++ tmpCount, cache)

/-- `mk_len_size`。 -/
def mkLenSize : AttrValue → Expr
  | .aString s => .var (.tmp s)
  | .aNumber n => .num n

/-- `size` と `sizefunc` の決める、要素の大きさ。 -/
def sizeStr (sattr : PtrSize) (name : String) : Expr :=
  match sattr.size with
  | some a => mkLenSize a
  | none =>
      match sattr.sizefunc with
      | none => .sizeofAt (.tmp name)
      | some f => .paren (.ite (.paren (.var (.tmp name))) (.app f (.var (.tmp name))) (.num 0))

/-- `gen_ptr_size` の `do_ps_attribute`。 -/
def doPsAttribute (sattr : PtrSize) (name : String) : Expr :=
  match sattr.count with
  | none => sizeStr sattr name
  | some a => .mul (mkLenSize a) (sizeStr sattr name)

/-- `gen_ptr_size`。`get_parm` は `mk_tmp_var` である。 -/
def genPtrSize (ty : Atype) (pattr : PtrAttr) (name : String) : Stmt :=
  .decl "size_t" (.len name)
    (if pattr.isary then .sizeof (getTystr ty)
    else if pattr.isstr then
      .ite (.var (.tmp name)) (.add (.app "strlen" (.var (.tmp name))) (.num 1)) (.num 0)
    else if pattr.iswstr then
      .ite (.var (.tmp name))
        (.mul (.paren (.add (.app "wcslen" (.var (.tmp name))) (.num 1))) (.sizeof "wchar_t")) (.num 0)
    else doPsAttribute pattr.size name)

/-- `do_gen_local_var` の `len_var`。 -/
def lenVar (plist : List Pdecl) (ty : Atype) (attr : PtrAttr) (name : String) (cache : List String) :
    Except String (List Stmt × List String) :=
  if attr.chkptr = false then .ok ([], cache)
  else do
    let (tmpSize, cache) ← genTmpSize attr plist cache
    .ok (tmpSize ++ [genPtrSize ty attr name], cache)

/-- `do_gen_local_var`。 -/
def doGenLocalVar (plist : List Pdecl) (ty : Atype) (attr : PtrAttr) (name : String) (cache : List String) :
    Except String (List Stmt × List String) := do
  let (lens, cache) ← lenVar plist ty attr name cache
  let inPtr := if attr.direction = .ptrNoDirection then [] else [Stmt.decl (getTystr ty) (.inp name) .null]
  .ok (Stmt.decl (getTystr ty) (.tmp name) (mkParmAccessor name) :: lens ++ inPtr, cache)

/-- `gen_local_var_for_foreign_array`。 -/
def genLocalVarForForeignArray (ty : Atype) (attr : PtrAttr) (name : String) : List Stmt :=
  if attr.direction = .ptrNoDirection then []
  else [
    .decl (getTystr ty ++ "*") (.tmp name) (mkParmAccessor name),
    .decl "size_t" (.len name) (.sizeof (getTystr ty)),
    .decl (getTystr ty ++ "*") (.inp name) .null]

/-- `gen_local_var`。 -/
def genLocalVar (plist : List Pdecl) (pd : Pdecl) (cache : List String) : Except String (List Stmt × List String) :=
  match pd.1 with
  | .ptVal _ => .ok ([], cache)
  | .ptPtr ty attr =>
      if isForeignArray pd.1 then .ok (genLocalVarForForeignArray ty attr pd.2.identifier, cache)
      else doGenLocalVar plist ty attr pd.2.identifier cache

/-- 引数を左から順に処理する。 -/
def genLocalVars (plist : List Pdecl) : List Pdecl → List String → Except String (List Stmt × List String)
  | [], cache => .ok ([], cache)
  | pd :: pds, cache => do
      let (cs, cache) ← genLocalVar plist pd cache
      let (ds, cache) ← genLocalVars plist pds cache
      .ok (cs ++ ds, cache)

/-- `gen_tbridge_local_vars`。生成のあとの `param_cache` も返す。 -/
def genTbridgeLocalVars (plist : List Pdecl) : Except String (List Stmt × List String) := do
  let (cs, cache) ← genLocalVars plist (plist.map convArrayToPtr) []
  .ok (.decl "sgx_status_t" .status (.const "SGX_SUCCESS") :: cs, cache)

/-! ## 検査 -/

/-- `status` に誤りを入れて、`err` に飛ぶ。 -/
def gotoErr (v : String) : Stmt := .block [.setStatus v, .goto]

/-- `gen_check_length`。 -/
def genCheckLength : Pdecl → List Stmt
  | (.ptVal _, _) => []
  | (.ptPtr _ attr, declr) =>
      match attr.size.count with
      | none => []
      | some a =>
          let cnt :=
            match a with
            | .aString s => .cast "size_t" (.var (.tmp s))
            | .aNumber n => .num n
          [.ifAbove cnt (sizeStr attr.size declr.identifier) (gotoErr "SGX_ERROR_INVALID_PARAMETER")]

/-- `gen_check_tbridge_length_overflow`。 -/
def genCheckTbridgeLengthOverflow (plist : List Pdecl) : List Stmt := plist.flatMap genCheckLength

/-- `mk_check_pms`。 -/
def mkCheckPms (fname : String) : Stmt := .checkRef (.sizeof (mkMsStructName fname))

/-- `gen_check_ptr`。 -/
def genCheckPtr : Pdecl → List Stmt
  | (.ptVal _, _) => []
  | (.ptPtr _ pattr, declr) =>
      if pattr.chkptr = false then [] else [.checkUnique (.tmp declr.identifier) (.len declr.identifier)]

/-- `gen_check_tbridge_ptr_parms`。 -/
def genCheckTbridgePtrParms (plist : List Pdecl) : List Stmt := (plist.map convArrayToPtr).flatMap genCheckPtr

/-! ## 写しと書き戻し -/

/-- `mk_in_ptr_dst_name`。 -/
def mkInPtrDstName (rdonly : Bool) (x : Var) : Expr := if rdonly then .cast "void*" (.var x) else .var x

/-- 文字列の終わりの 0。 -/
def terminate (attr : PtrAttr) (name : String) : List Stmt :=
  if attr.isstr then [.poke (.inp name) (.sub (.var (.len name)) (.num 1)) "'\\0'"]
  else if attr.iswstr then
    [.poke (.inp name)
      (.div (.paren (.sub (.var (.len name)) (.sizeof "wchar_t"))) (.sizeof "wchar_t")) "(wchar_t)0"]
  else []

/-- `check_sizefunc_ptr`。 -/
def checkSizefuncPtr (attr : PtrAttr) (name : String) : List Stmt :=
  match attr.size.sizefunc with
  | none => []
  | some f =>
      [.ite (.ne (.app f (.var (.inp name))) (.var (.len name))) (gotoErr "SGX_ERROR_INVALID_PARAMETER") .skip]

/-- `malloc` と、その失敗。 -/
def mallocOrGoto (inPtrType name : String) : List Stmt :=
  [.malloc (.inp name) inPtrType (.len name),
    .ite (.eq (.var (.inp name)) .null) (gotoErr "SGX_ERROR_OUT_OF_MEMORY") .skip]

/-- `clone_in_ptr`。 -/
def cloneInPtr : Pdecl → List Stmt
  | (.ptVal _, _) => []
  | (.ptPtr ty attr, declr) =>
      let name := declr.identifier
      let isAry := isArray declr || attr.isary
      let inPtrType := getTystr ty ++ if isAry then "*" else ""
      let guarded (cs : List Stmt) : List Stmt :=
        [.ite (.ne (.var (.tmp name)) .null) (.block (mallocOrGoto inPtrType name ++ cs)) .skip]
      match attr.direction with
      | .ptrIn | .ptrInOut =>
          guarded (.memcpy (mkInPtrDstName attr.rdonly (.inp name)) (.var (.tmp name)) (.len name) ::
            terminate attr name ++ checkSizefuncPtr attr name)
      | .ptrOut => guarded [.memset (.cast "void*" (.var (.inp name))) (.len name)]
      | .ptrNoDirection => []

/-- `gen_parm_ptr_direction_pre`。 -/
def genParmPtrDirectionPre (plist : List Pdecl) : List Stmt := plist.flatMap cloneInPtr

/-- `copy_and_free`。 -/
def copyAndFree : Pdecl → List Stmt
  | (.ptVal _, _) => []
  | (.ptPtr _ attr, declr) =>
      let name := declr.identifier
      match attr.direction with
      | .ptrIn => [.ite (.var (.inp name)) (.free (mkInPtrDstName attr.rdonly (.inp name))) .skip]
      | .ptrInOut | .ptrOut =>
          [.ite (.var (.inp name))
            (.block [.memcpy (.var (.tmp name)) (.var (.inp name)) (.len name), .free (.var (.inp name))]) .skip]
      | .ptrNoDirection => []

/-- `gen_parm_ptr_direction_post`。 -/
def genParmPtrDirectionPost (plist : List Pdecl) : List Stmt := plist.flatMap copyAndFree

/-- `gen_err_mark`。 -/
def genErrMark (plist : List Pdecl) : Bool := plist.any fun pd => ptrHasDirection pd.1

/-! ## 信頼側の関数の呼び出し -/

/-- `mk_parm_name_raw`。 -/
def mkParmNameRaw (pt : ParameterType) (declr : Declarator) : Expr :=
  if isArray declr ∧ 1 < declr.arrayDims.length then
    .cast (getParamTystr pt ++ " (*)" ++ getArrayDims declr.arrayDims.tail) (Bridge.mkParmAccessor declr.identifier)
  else Bridge.mkParmAccessor declr.identifier

/-- `mk_parm_name_ext`。 -/
def mkParmNameExt (pt : ParameterType) (declr : Declarator) : Expr :=
  if ptrHasDirection pt then .var (.inp declr.identifier) else mkParmNameRaw pt declr

/-- `tbridge_mk_parm_name_ext`。 -/
def tbridgeMkParmNameExt (cache : List String) (pt : ParameterType) (declr : Declarator) : Expr :=
  if declr.identifier ∈ cache ∨ (isPtr pt = true ∧ isForeignArray pt = false) then
    if ptrHasDirection pt then .var (.inp declr.identifier) else .var (.tmp declr.identifier)
  else mkParmNameExt pt declr

/-- `mk_parm_name_tbridge`。 -/
def mkParmNameTbridge (cache : List String) (pt : ParameterType) (declr : Declarator) : Expr :=
  let arg := tbridgeMkParmNameExt cache pt declr
  if isForeignArray pt then .ite (.paren (.ne arg .null)) (.load arg) .null else arg

/-- `gen_func_invoking` の引数。 -/
def genArg (cache : List String) (pd : Pdecl) : Expr :=
  let parmName := mkParmNameTbridge cache pd.1 pd.2
  if isConstPtr pd.1 then .cast ("const " ++ getParamTystr pd.1) parmName else parmName

/-- `gen_func_invoking`。`ms_retval` への代入を含む。 -/
def genFuncInvoking (fd : FuncDecl) (cache : List String) : Stmt :=
  .call (if fd.rtype = .void then none else some (Bridge.mkParmAccessor retvalName)) fd.fname
    (fd.plist.map (genArg cache))

/-- `gen_func_tbridge`。 -/
def genFuncTbridge (fd : FuncDecl) (dummyVar : String) : Except String Func := do
  let proto := "static sgx_status_t SGX_CDECL sgx_" ++ fd.fname ++ "(void* pms)"
  let (localVars, cache) ← genTbridgeLocalVars fd.plist
  if isNakedFunc fd then
    .ok {
      proto := proto
      body := localVars ++ [.raw dummyVar, .retIfPms "SGX_ERROR_INVALID_PARAMETER", genFuncInvoking fd cache]
      err := false
      post := [.ret .status] }
  else
    let msStructName := mkMsStructName fd.fname
    .ok {
      proto := proto
      body := .raw (msStructName ++ "* ms = SGX_CAST(" ++ msStructName ++ "*, pms);") :: localVars ++
        genCheckTbridgeLengthOverflow fd.plist ++ [mkCheckPms fd.fname] ++ genCheckTbridgePtrParms fd.plist ++
        genParmPtrDirectionPre fd.plist ++ [genFuncInvoking fd cache]
      err := genErrMark fd.plist
      post := genParmPtrDirectionPost fd.plist ++ [.ret .status] }

end Eleos.Edger.Bridge
