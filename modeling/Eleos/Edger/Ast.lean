import Mathlib.Tactic.TypeStar

/-!
# EDL の構文木（`Ast.ml`）

関数の宣言に関わる部分だけを写す。`struct_def`、`enum_def`、`import_decl` などと、`uf_fattr`、`uf_allow_list` の欄は、
代理関数の生成では使われない。
-/

namespace Eleos.Edger

inductive Signedness where
  | signed
  | unsigned
deriving DecidableEq

inductive Shortness where
  | iShort
  | iLong
  | iNone
deriving DecidableEq

structure IntAttr where
  signedness : Signedness
  shortness : Shortness
deriving DecidableEq

inductive Atype where
  | char (sn : Signedness)
  | long (sn : Signedness)
  | llong (sn : Signedness)
  | int (ia : IntAttr)
  | float
  | double
  | ldouble
  | int8
  | int16
  | int32
  | int64
  | uint8
  | uint16
  | uint32
  | uint64
  | void
  | wchar
  | sizeT
  | struct (id : String)
  | union (id : String)
  | enum (id : String)
  | foreign (s : String)
  | ptr (ty : Atype)
deriving DecidableEq

inductive PtrDirection where
  | ptrIn
  | ptrOut
  | ptrInOut
  | ptrNoDirection
deriving DecidableEq

inductive AttrValue where
  | aString (s : String)
  | aNumber (n : Int)
deriving DecidableEq

structure PtrSize where
  size : Option AttrValue
  sizefunc : Option String
  count : Option AttrValue
deriving DecidableEq

def emptyPtrSize : PtrSize := { size := none, sizefunc := none, count := none }

structure PtrAttr where
  direction : PtrDirection
  size : PtrSize
  isptr : Bool
  isary : Bool
  isstr : Bool
  iswstr : Bool
  rdonly : Bool
  -- ポインタを検査するコードを生成する。`user_check` のとき偽になる。
  chkptr : Bool
deriving DecidableEq

inductive ParameterType where
  | ptVal (ty : Atype)
  | ptPtr (ty : Atype) (attr : PtrAttr)
deriving DecidableEq

/-- 名前と、配列の次元。次元の `-1` は `[]` を表す。 -/
structure Declarator where
  identifier : String
  arrayDims : List Int
deriving DecidableEq

def isArray (declr : Declarator) : Bool := declr.arrayDims ≠ []

abbrev Pdecl := ParameterType × Declarator

structure FuncDecl where
  fname : String
  rtype : Atype
  plist : List Pdecl
deriving DecidableEq

structure UntrustedFunc where
  fdecl : FuncDecl
  propagateErrno : Bool
deriving DecidableEq

/-! ## 型の文字列 -/

def getTystr : Atype → String
  | .char .signed => "char"
  | .char .unsigned => "unsigned char"
  | .long .signed => "long"
  | .long .unsigned => "unsigned long"
  | .llong .signed => "long long"
  | .llong .unsigned => "unsigned long long"
  | .int ia =>
      (match ia.signedness with
        | .unsigned => "unsigned "
        | .signed => "") ++
      (match ia.shortness with
        | .iShort => "short "
        | .iLong => "long "
        | .iNone => "") ++ "int"
  | .float => "float"
  | .double => "double"
  | .ldouble => "long double"
  | .int8 => "int8_t"
  | .int16 => "int16_t"
  | .int32 => "int32_t"
  | .int64 => "int64_t"
  | .uint8 => "uint8_t"
  | .uint16 => "uint16_t"
  | .uint32 => "uint32_t"
  | .uint64 => "uint64_t"
  | .void => "void"
  | .sizeT => "size_t"
  | .wchar => "wchar_t"
  | .struct id => "struct " ++ id
  | .union id => "union " ++ id
  | .enum id => "enum " ++ id
  | .foreign s => s
  | .ptr ty => getTystr ty ++ "*"

def getParamAtype : ParameterType → Atype
  | .ptVal t => t
  | .ptPtr t _ => t

end Eleos.Edger
