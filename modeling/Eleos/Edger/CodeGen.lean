import Eleos.Edger.Ast
import Eleos.Edger.C

/-!
# 信頼側の代理関数の生成（`CodeGen.ml`）

`gen_func_tproxy` とそれが使う関数を写す。生成するコードは文字列ではなく構文木とし、文字列は `Func.text` で得る。
-/

namespace Eleos.Edger

/-! ## 名前 -/

def retvalName : String := "retval"
def msStructVal : String := "ms"
def mkMsMemberName (pname : String) : String := "ms_" ++ pname
def mkMsStructName (fname : String) : String := "ms_" ++ fname ++ "_t"
def mkParmAccessor (name : String) : Expr := .field msStructVal (mkMsMemberName name)
def mkLenVar (name : String) : String := "_len_" ++ name

def getParamTystr (pt : ParameterType) : String := getTystr (getParamAtype pt)

def isNakedFunc (fd : FuncDecl) : Bool := fd.rtype = .void ∧ fd.plist = []

def isPtrType : Atype → Bool
  | .ptr _ => true
  | _ => false

/-- 配列の引数を、要素の個数の付いたポインタに直す。 -/
def convArrayToPtr : Pdecl → Pdecl
  | (.ptVal ty, declr) => (.ptVal ty, declr)
  | (.ptPtr aty pa, declr) =>
      if isArray declr then
        let cnt := AttrValue.aNumber (declr.arrayDims.foldl (· * ·) 1)
        (.ptPtr (.ptr aty) { pa with size := { emptyPtrSize with count := some cnt } }, { declr with arrayDims := [] })
      else (.ptPtr aty pa, declr)

/-! ## 関数の見出し -/

def getArrayDims (ns : List Int) : String :=
  ns.foldl (fun acc n => acc ++ if n = -1 then "[]" else "[" ++ toString n ++ "]") ""

def getTypedDeclrStr (ty : Atype) (declr : Declarator) : String :=
  getTystr ty ++ " " ++ declr.identifier ++ getArrayDims declr.arrayDims

def isConstPtr : ParameterType → Bool
  | .ptVal _ => false
  | .ptPtr (.foreign _) _ => false
  | .ptPtr _ pa => pa.rdonly

def genParmStr (p : Pdecl) : String :=
  let str := getTypedDeclrStr (getParamAtype p.1) p.2
  if isConstPtr p.1 then "const " ++ str else str

def genParmRetval (rt : Atype) : String :=
  if rt = .void then "" else getTystr (.ptr rt) ++ " " ++ retvalName

def genTproxyProto (fd : FuncDecl) : String :=
  let parmList :=
    match fd.plist with
    | [] => ""
    | x :: xs => xs.foldl (fun acc pd => acc ++ ", " ++ genParmStr pd) (genParmStr x)
  let retvalParmStr := genParmRetval fd.rtype
  if fd.plist = [] then "sgx_status_t SGX_CDECL " ++ fd.fname ++ "(" ++ retvalParmStr ++ ")"
  else if fd.rtype = .void then "sgx_status_t SGX_CDECL " ++ fd.fname ++ "(" ++ parmList ++ ")"
  else "sgx_status_t SGX_CDECL " ++ fd.fname ++ "(" ++ retvalParmStr ++ ", " ++ parmList ++ ")"

/-! ## 引数の大きさ -/

def mkLenSize : AttrValue → Expr
  | .aString s => .var s
  | .aNumber n => .num n

/-- `gen_ptr_size` の `do_ps_attribute`。 -/
def doPsAttribute (sattr : PtrSize) (name : String) : Expr :=
  let sizeStr :=
    match sattr.size with
    | some a => mkLenSize a
    | none =>
        match sattr.sizefunc with
        | none => .sizeof ("*" ++ name)
        | some f => .paren (.ite (.paren (.var name)) (.app f (.var name)) (.num 0))
  match sattr.count with
  | none => sizeStr
  | some a => .mul (mkLenSize a) sizeStr

/-- `gen_ptr_size`。代理関数では `get_parm` は恒等である。 -/
def genPtrSize (ty : Atype) (pattr : PtrAttr) (name : String) : Stmt :=
  .decl "size_t" (mkLenVar name)
    (if pattr.isary then .sizeof (getTystr ty)
    else if pattr.isstr then .ite (.var name) (.add (.app "strlen" (.var name)) (.num 1)) (.num 0)
    else if pattr.iswstr then
      .ite (.var name) (.mul (.paren (.add (.app "wcslen" (.var name)) (.num 1))) (.sizeof "wchar_t")) (.num 0)
    else doPsAttribute pattr.size name)

/-! ## 構造体の欄 -/

/-- `fill_ms_field true`。 -/
def fillMsField : Pdecl → Stmt
  | (pt, declr) =>
      let name := declr.identifier
      let field := LVal.field msStructVal (mkMsMemberName name)
      if declr.arrayDims = [] then
        match pt with
        | .ptVal _ => .assign field (.var name)
        | .ptPtr aty pattr =>
            if pattr.isary then .assign field (.first (getTystr aty) name)
            else if pattr.rdonly then .assign field (.cast (getTystr aty) (.var name))
            else .assign field (.var name)
      else .assign field (.cast (getTystr (.ptr (getParamAtype pt))) (.var name))

def mkInPtrDstName (rdonly : Bool) (e : Expr) : Expr := if rdonly then .cast "void*" e else e

/-- `name != NULL && sgx_is_within_enclave(name, len)`。 -/
def withinEnclave (name : String) : Expr :=
  .and (.ne (.var name) .null) (.app2 "sgx_is_within_enclave" (.var name) (.var (mkLenVar name)))

/-- 検査のあるポインタの欄を埋める。`fill` は構造体の後ろの領域を埋める呼び出しである。 -/
def fillChecked (name tystr : String) (fill : Stmt) : Stmt :=
  .ite (withinEnclave name)
    (.block [
      .assign (.field msStructVal (mkMsMemberName name)) (.cast tystr (.var "__tmp")),
      .assign (.var "__tmp")
        (.cast "void *" (.paren (.add (.cast "size_t" (.var "__tmp")) (.var (mkLenVar name))))),
      fill])
    (.ite (.eq (.var name) .null)
      (.assign (.field msStructVal (mkMsMemberName name)) .null)
      (.block [.free (.var msStructVal), .ret (.var "SGX_ERROR_INVALID_PARAMETER")]))

def tproxyFillMsField : Pdecl → Stmt
  | (.ptVal ty, declr) => fillMsField (.ptVal ty, declr)
  | (.ptPtr ty attr, declr) =>
      let name := declr.identifier
      let isAry := isArray declr || attr.isary
      let tystr := getTystr ty ++ if isAry then "*" else ""
      if isAry && isPtrType ty then
        .pragma ("\"Pointer array `" ++ name ++ "' in trusted proxy `\"" ++
          "__FUNCTION__ \"' is dangerous. No code generated.\"")
      else
        let inPtrDstName := mkInPtrDstName attr.rdonly (mkParmAccessor name)
        if attr.chkptr = false then .assign (.field msStructVal (mkMsMemberName name)) (.sgxCast tystr (.var name))
        else
          match attr.direction with
          | .ptrOut => fillChecked name tystr (.call "memset" inPtrDstName (.num 0) (.var (mkLenVar name)))
          | _ => fillChecked name tystr (.call "memcpy" inPtrDstName (.var name) (.var (mkLenVar name)))

/-! ## 局所変数と領域の確保 -/

/-- 検査のあるポインタの引数ごとに文を一つ作る。 -/
def forChecked (mk : Atype → PtrAttr → String → Stmt) : Pdecl → List Stmt
  | (.ptVal _, _) => []
  | (.ptPtr ty attr, declr) => if attr.chkptr = false then [] else [mk ty attr declr.identifier]

def genTproxyLocalVars (plist : List Pdecl) : List Stmt :=
  .decl "sgx_status_t" "status" (.var "SGX_SUCCESS") ::
    (plist.map convArrayToPtr).flatMap (forChecked genPtrSize)

def countOcallocSize (_ : Atype) (_ : PtrAttr) (name : String) : Stmt :=
  .addAssign "ocalloc_size" (.ite (.paren (withinEnclave name)) (.var (mkLenVar name)) (.num 0))

def genOcallocBlock (fname : String) (plist : List Pdecl) : List Stmt :=
  let msStructName := mkMsStructName fname
  [.decl (msStructName ++ "*") msStructVal .null,
    .decl "size_t" "ocalloc_size" (.sizeof msStructName),
    .decl "void *" "__tmp" .null] ++
  (plist.map convArrayToPtr).flatMap (forChecked countOcallocSize) ++
  [.malloc "__tmp" (.var "ocalloc_size"),
    .ite (.eq (.var "__tmp") .null) (.block [.free (.var "__tmp"), .ret (.var "SGX_ERROR_UNEXPECTED")]) .skip,
    .assign (.var msStructVal) (.cast (msStructName ++ "*") (.var "__tmp")),
    .assign (.var "__tmp")
      (.cast "void *" (.paren (.add (.cast "size_t" (.var "__tmp")) (.sizeof msStructName))))]

/-! ## 代理関数 -/

def genOcfree (rtype : Atype) (plist : List Pdecl) : List Stmt :=
  if rtype = .void ∧ plist = [] then [] else [.free (.var msStructVal)]

/-- `handle_out_ptr` の `copy_memory`。 -/
def copyMemory (attr : PtrAttr) (declr : Declarator) : List Stmt :=
  let name := declr.identifier
  match attr.direction with
  | .ptrInOut | .ptrOut =>
      [.ite (.var name) (.call "memcpy" (.cast "void*" (.var name)) (mkParmAccessor name) (.var (mkLenVar name))) .skip]
  | _ => []

def handleOutPtr (plist : List Pdecl) : List Stmt :=
  plist.flatMap fun
    | (.ptVal _, _) => []
    | (.ptPtr _ attr, declr) => copyMemory attr declr

def setErrno (propagateErrno : Bool) : List Stmt :=
  if propagateErrno then [.assign (.var "errno") (.field msStructVal "ocall_errno")] else []

/-- `func_close`。 -/
def funcClose (ufunc : UntrustedFunc) : List Stmt :=
  handleOutPtr ufunc.fdecl.plist ++ setErrno ufunc.propagateErrno ++
    genOcfree ufunc.fdecl.rtype ufunc.fdecl.plist ++ [.ret (.var "status")]

def updateRetval (rtype : Atype) : List Stmt :=
  if rtype = .void then []
  else [.ite (.var retvalName) (.assign (.deref retvalName) (mkParmAccessor retvalName)) .skip]

/-- `gen_func_tproxy`。 -/
def genFuncTproxy (ufunc : UntrustedFunc) (idx : Nat) : Func :=
  let fd := ufunc.fdecl
  if isNakedFunc fd && ufunc.propagateErrno = false then
    { proto := genTproxyProto fd
      body := genTproxyLocalVars fd.plist ++ [.ocall "status" idx .null] ++ funcClose ufunc }
  else
    { proto := genTproxyProto fd
      body := genTproxyLocalVars fd.plist ++ genOcallocBlock fd.fname fd.plist ++
        fd.plist.map tproxyFillMsField ++ [.ocall "status" idx (.var msStructVal)] ++ updateRetval fd.rtype ++
        funcClose ufunc }

end Eleos.Edger
