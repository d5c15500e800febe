import Eleos.Edger.Ast

/-!
# ポインタの属性の解析（`Parser.mly`）

`get_ptr_attr` と `check_ptr_attr` を写す。`failwith` は `Except.error` である。
-/

namespace Eleos.Edger

/-- `get_string_from_attr`。 -/
def getStringFromAttr (v : AttrValue) (errFunc : Int → Except String String) : Except String String :=
  match v with
  | .aString s => .ok s
  | .aNumber n => errFunc n

/-- `get_new_dir`。 -/
def getNewDir (cds : String) (cda old : PtrDirection) : Except String PtrDirection :=
  if old = .ptrNoDirection then .ok cda
  else if old = .ptrInOut then .error ("duplicated attribute: `" ++ cds ++ "'")
  else if old = cda then .error ("duplicated attribute: `" ++ cds ++ "'")
  else .ok .ptrInOut

/-- `update_attr`。 -/
def updateAttr (key : String) (value : AttrValue) (res : PtrAttr) : Except String PtrAttr :=
  match key with
  | "size" => .ok { res with size := { res.size with size := some value } }
  | "count" => .ok { res with size := { res.size with count := some value } }
  | "sizefunc" => do
      let funcname ← getStringFromAttr value fun n =>
        .error ("invalid function name (" ++ toString n ++ ") for `sizefunc'")
      .ok { res with size := { res.size with sizefunc := some funcname } }
  | "string" => .ok { res with isptr := true, isstr := true }
  | "wstring" => .ok { res with isptr := true, iswstr := true }
  | "isptr" => .ok { res with isptr := true }
  | "isary" => .ok { res with isary := true }
  | "readonly" => .ok { res with rdonly := true }
  | "user_check" => .ok { res with chkptr := false }
  | "in" => do
      let newdir ← getNewDir "in" .ptrIn res.direction
      .ok { res with direction := newdir }
  | "out" => do
      let newdir ← getNewDir "out" .ptrOut res.direction
      .ok { res with direction := newdir }
  | _ => .error ("unknown attribute: " ++ key)

/-- `do_get_ptr_attr`。 -/
def doGetPtrAttr : List (String × AttrValue) → PtrAttr → Except String PtrAttr
  | [], resAttr => .ok resAttr
  | (k, v) :: xs, resAttr => do
      let resAttr ← updateAttr k v resAttr
      doGetPtrAttr xs resAttr

/-- `has_str_attr`。 -/
def hasStrAttr (pattr : PtrAttr) : Except String Bool :=
  if pattr.isstr && pattr.iswstr then .error "`string' and `wstring' are mutual exclusive"
  else .ok (pattr.isstr || pattr.iswstr)

/-- `check_invalid_ptr_size`。 -/
def checkInvalidPtrSize (pattr : PtrAttr) : Except String PtrAttr := do
  let ps := pattr.size
  if ps.size ≠ none ∧ ps.sizefunc ≠ none then .error "`size' and `sizefunc' cannot be used at the same time"
  else
    -- `&&` と `||` は、左だけで決まれば右を評価しない。
    let sized := decide (ps ≠ emptyPtrSize)
    let both ← if sized then hasStrAttr pattr else .ok false
    if both then .error "size attributes are mutual exclusive with (w)string attribute"
    else
      let either ← if sized then .ok true else hasStrAttr pattr
      if either ∧ pattr.direction = .ptrNoDirection then
        .error "size/string attributes must be used with pointer direction"
      else .ok pattr

/-- `check_ptr_dir`。 -/
def checkPtrDir (pattr : PtrAttr) : Except String PtrAttr :=
  if pattr.direction ≠ .ptrNoDirection ∧ pattr.chkptr = false then
    .error "pointer direction and `user_check' are mutual exclusive"
  else if pattr.direction = .ptrNoDirection ∧ pattr.chkptr = true then
    .error "pointer/array should have direction attribute or `user_check'"
  else if pattr.direction = .ptrOut then do
    let str ← hasStrAttr pattr
    if str ∨ pattr.size.sizefunc ≠ none then .error "string/wstring/sizefunc should be used with an `in' attribute"
    else .ok pattr
  else .ok pattr

/-- `check_invalid_ary_attr`。 -/
def checkInvalidAryAttr (pattr : PtrAttr) : Except String PtrAttr :=
  if pattr.size ≠ emptyPtrSize then .error "Pointer size attributes cannot be used with foreign array"
  else if pattr.isptr = false then
    if pattr.chkptr = true ∧ pattr.direction = .ptrNoDirection then
      .error "array must have direction attribute or `user_check'"
    else .ok pattr
  else do
    let str ← hasStrAttr pattr
    if str then .error "`isary' cannot be used with `string/wstring' together"
    else .error "`isary' cannot be used with `isptr' together"

/-- 属性を何も書かないときの値。 -/
def defaultPtrAttr : PtrAttr :=
  { direction := .ptrNoDirection, size := emptyPtrSize, isptr := false, isary := false, isstr := false,
    iswstr := false, rdonly := false, chkptr := true }

/-- `get_ptr_attr`。 -/
def getPtrAttr (attrList : List (String × AttrValue)) : Except String PtrAttr := do
  let pattr ← doGetPtrAttr attrList defaultPtrAttr
  if pattr.isary then checkInvalidAryAttr pattr
  else do
    let pattr ← checkInvalidPtrSize pattr
    checkPtrDir pattr

/-- 構文解析器が作る属性。`const` の付いたポインタは `rdonly` になる。 -/
def Parsed (pattr : PtrAttr) : Prop :=
  ∃ attrList a, getPtrAttr attrList = .ok a ∧ (pattr = a ∨ pattr = { a with rdonly := true })

/-- 受理した属性の決まり。 -/
structure PtrAttr.Lawful (a : PtrAttr) : Prop where
  -- 向きのあるポインタは検査する。`isary` だけは `user_check` とともに書ける。
  checked : a.direction ≠ .ptrNoDirection → a.chkptr = true ∨ a.isary = true
  directed : a.chkptr = true → a.direction ≠ .ptrNoDirection
  str : a.isstr = true ∨ a.iswstr = true → a.isary = false ∧ (a.direction = .ptrIn ∨ a.direction = .ptrInOut) ∧
    a.size = emptyPtrSize
  one : ¬ (a.isstr = true ∧ a.iswstr = true)
  sized : a.size ≠ emptyPtrSize → a.isary = false ∧ a.direction ≠ .ptrNoDirection
  exclusive : a.size.size = none ∨ a.size.sizefunc = none
  sizefunc : a.size.sizefunc ≠ none → a.direction = .ptrIn ∨ a.direction = .ptrInOut

end Eleos.Edger
