import Callsite.Json.Reader
import Callsite.Json.Record
import Callsite.Program.Tree

/-!
# Programs from JSON

Every decoder is given the number of levels of arrays and objects that it may go
down: a text is limited to a fixed nesting, and a value at hand to its own.  In a
text the contents of a variant with named fields may be written as an array, like
any record; a value at hand has to name them.
-/

namespace Callsite

namespace Json

/-- Which ways of writing a value are accepted. -/
structure Layout where
  /-- Whether the named fields of a variant may be written as an array. -/
  positionalVariants : Bool

/-- The named fields of a variant. -/
def Layout.contents? (layout : Layout) (names : List String) (j : Json) : Option Record :=
  if layout.positionalVariants then j.record? names else j.named? names

def names? : Nat → Json → Option (List String)
  | _ + 1, .arr items => items.mapM text?
  | _, _ => none

def unit? {α : Type} (value : α) : Json → Option α
  | .null => some value
  | _ => none

end Json

open Json (Layout)

def Span.decode : Nat → Json → Option Span
  | _ + 1, j => do
    let r ← j.record? ["start", "end", "start_line", "start_col"]
    pure
      { start := ← r.required "start" Json.word64?
        stop := ← r.required "end" Json.word64?
        line := ← r.required "start_line" Json.word32?
        column := ← r.required "start_col" Json.word32? }
  | 0, _ => none

def TypeId.decode : Nat → Json → Option TypeId
  | _ + 1, j => do
    let r ← j.record? ["index"]
    pure ⟨← r.required "index" (Json.natBelow? UInt32.size)⟩
  | 0, _ => none

namespace TypeExpr

def decodePath (layout : Layout) : Nat → Json → Option TypeExpr
  | n + 1, j => do
    let r ← layout.contents? ["names", "global"] j
    pure (.path (← r.required "names" (Json.names? n)) (← r.required "global" Json.bool?))
  | 0, _ => none

mutual

/-- Read a type expression. -/
def decode (layout : Layout) : Nat → Json → Option TypeExpr
  | _, .text "SelfType" => some .selfType
  | n + 1, .obj [(tag, contents)] =>
    match tag with
    | "Path" => decodePath layout n contents
    | "Generic" => decodeGeneric layout n contents
    | "Fun" => decodeFunction layout n contents
    | "SelfType" => Json.unit? .selfType contents
    | "Resolved" => (TypeId.decode n contents).map .resolved
    | _ => none
  | _, _ => none

def decodeGeneric (layout : Layout) : Nat → Json → Option TypeExpr
  | n + 1, j => do
    let r ← layout.contents? ["name", "args"] j
    pure (.generic (← r.required "name" (decode layout n))
      (← r.required "args" (decodeList layout n)))
  | 0, _ => none

def decodeFunction (layout : Layout) : Nat → Json → Option TypeExpr
  | n + 1, j => do
    let r ← layout.contents? ["inputs", "output"] j
    pure (.function (← r.required "inputs" (decodeList layout n))
      (← r.optional "output" (decode layout n)))
  | 0, _ => none

def decodeList (layout : Layout) : Nat → Json → Option (List TypeExpr)
  | n + 1, .arr items => items.mapM (decode layout n)
  | _, _ => none

end

def decodePair (layout : Layout) : Nat → Json → Option (String × TypeExpr)
  | n + 1, .arr [name, type] => do pure (← name.text?, ← decode layout n type)
  | _, _ => none

def decodePairs (layout : Layout) : Nat → Json → Option (List (String × TypeExpr))
  | n + 1, .arr items => items.mapM (decodePair layout n)
  | _, _ => none

end TypeExpr

def BlockParam.decode (layout : Layout) : Nat → Json → Option BlockParam
  | n + 1, j => do
    let r ← j.record? ["name", "inputs", "output"]
    pure
      { name := ← r.required "name" Json.text?
        inputs := ← r.optional "inputs" (TypeExpr.decodeList layout n)
        output := ← r.optional "output" (TypeExpr.decode layout n) }
  | 0, _ => none

def ForeignFunction.decode (layout : Layout) : Nat → Json → Option ForeignFunction
  | n + 1, j => do
    let r ← j.record? ["name", "params", "ret", "varargs"]
    pure
      { name := ← r.required "name" Json.text?
        params := ← r.required "params" (TypeExpr.decodePairs layout n)
        result := ← r.optional "ret" (TypeExpr.decode layout n)
        variadic := ← r.defaulted "varargs" Json.bool? false }
  | 0, _ => none

def ForeignStruct.decode (layout : Layout) : Nat → Json → Option ForeignStruct
  | n + 1, j => do
    let r ← j.record? ["name", "fields"]
    pure
      { name := ← r.required "name" Json.text?
        fields := ← r.required "fields" (TypeExpr.decodePairs layout n) }
  | 0, _ => none

namespace LibraryDecl

def decodeFunctions (layout : Layout) : Nat → Json → Option (List ForeignFunction)
  | n + 1, .arr items => items.mapM (ForeignFunction.decode layout n)
  | _, _ => none

def decodeStructs (layout : Layout) : Nat → Json → Option (List ForeignStruct)
  | n + 1, .arr items => items.mapM (ForeignStruct.decode layout n)
  | _, _ => none

def decode (layout : Layout) : Nat → Json → Option LibraryDecl
  | n + 1, j => do
    let r ← j.record? ["name", "funs", "structs"]
    pure
      { name := ← r.required "name" Json.text?
        functions := ← r.required "funs" (decodeFunctions layout n)
        structs := ← r.defaulted "structs" (decodeStructs layout n) [] }
  | 0, _ => none

end LibraryDecl

mutual

/-- Read an expression; a missing span counts as absent. -/
def Expr.decode (layout : Layout) : Nat → Json → Option Expr
  | n + 1, j => do
    let r ← j.record? ["kind", "span"]
    pure ⟨← r.required "kind" (Form.decode layout n),
      ← r.defaulted "span" (Span.decode n) .absent⟩
  | 0, _ => none

def Expr.decodeList (layout : Layout) : Nat → Json → Option (List Expr)
  | n + 1, .arr items => items.mapM (Expr.decode layout n)
  | _, _ => none

/-- Read what an expression is made of: a tag and what belongs to it. -/
def Form.decode (layout : Layout) : Nat → Json → Option Form
  | _, .text "Nil" => some .nil
  | _, .text "SelfRef" => some .selfRef
  | n + 1, .obj [(tag, contents)] =>
    match tag with
    | "Nil" => Json.unit? .nil contents
    | "Bool" => contents.bool?.map .bool
    | "Int" => contents.int64?.map .int
    | "Char" => contents.char?.map .char
    | "Str" => contents.text?.map .str
    | "Symbol" => contents.text?.map .symbol
    | "Array" => (Expr.decodeList layout n contents).map .array
    | "Var" => contents.text?.map .var
    | "SelfRef" => Json.unit? .selfRef contents
    | "Assign" => Form.decodeAssign layout n contents
    | "Out" => contents.text?.map .out
    | "Path" => (TypeExpr.decode layout n contents).map .path
    | "Call" => (Call.decode layout n contents).map .call
    | "Yield" => (Expr.decodeList layout n contents).map .yield
    | "Seq" => (Expr.decodeList layout n contents).map .seq
    | "If" => Form.decodeBranch layout n contents
    | "Def" => (MethodDecl.decode layout n contents).map .method
    | "ClassDef" => (ClassDecl.decode layout n contents).map .classDecl
    | "LibDef" => (LibraryDecl.decode layout n contents).map .library
    | "Primitive" => (TypeExpr.decode layout n contents).map .primitive
    | "Allocate" => (Json.nullable (TypeExpr.decode layout n) contents).map .allocate
    | "FunLiteral" => Form.decodeFunction layout n contents
    | "ClassOf" => (Expr.decode layout n contents).map .classOf
    | _ => none
  | _, _ => none

def Form.decodeAssign (layout : Layout) : Nat → Json → Option Form
  | n + 1, j => do
    let r ← layout.contents? ["target", "value"] j
    pure (.assign (← r.required "target" Json.text?)
      (← r.required "value" (Expr.decode layout n)))
  | 0, _ => none

def Form.decodeBranch (layout : Layout) : Nat → Json → Option Form
  | n + 1, j => do
    let r ← layout.contents? ["cond", "then", "otherwise"] j
    pure (.branch (← r.required "cond" (Expr.decode layout n))
      (← r.required "then" (Expr.decode layout n))
      (← r.required "otherwise" (Expr.decode layout n)))
  | 0, _ => none

def Form.decodeFunction (layout : Layout) : Nat → Json → Option Form
  | n + 1, j => do
    let r ← layout.contents? ["params", "body"] j
    pure (.function (← r.required "params" (Param.decodeList layout n))
      (← r.required "body" (Expr.decode layout n)))
  | 0, _ => none

def Call.decode (layout : Layout) : Nat → Json → Option Call
  | n + 1, j => do
    let r ← j.record? ["obj", "name", "args", "block", "block_arg", "has_parens"]
    pure
      { receiver := ← r.optional "obj" (Expr.decode layout n)
        name := ← r.required "name" Json.text?
        args := ← r.required "args" (Expr.decodeList layout n)
        block := ← r.optional "block" (Block.decode layout n)
        blockArg := ← r.optional "block_arg" (Expr.decode layout n)
        hasParens := ← r.defaulted "has_parens" Json.bool? false }
  | 0, _ => none

def Block.decode (layout : Layout) : Nat → Json → Option Block
  | n + 1, j => do
    let r ← j.record? ["args", "body"]
    pure
      { params := ← r.required "args" (Json.names? n)
        body := ← r.optional "body" (Expr.decode layout n) }
  | 0, _ => none

def Param.decode (layout : Layout) : Nat → Json → Option Param
  | n + 1, j => do
    let r ← j.record? ["name", "default", "restriction"]
    pure
      { name := ← r.required "name" Json.text?
        default := ← r.optional "default" (Expr.decode layout n)
        restriction := ← r.optional "restriction" (TypeExpr.decode layout n) }
  | 0, _ => none

def Param.decodeList (layout : Layout) : Nat → Json → Option (List Param)
  | n + 1, .arr items => items.mapM (Param.decode layout n)
  | _, _ => none

def MethodDecl.decode (layout : Layout) : Nat → Json → Option MethodDecl
  | n + 1, j => do
    let r ← j.record? ["name", "params", "body", "block_arg", "receiver_self", "span"]
    pure
      { name := ← r.required "name" Json.text?
        params := ← r.required "params" (Param.decodeList layout n)
        body := ← r.optional "body" (Expr.decode layout n)
        blockParam := ← r.optional "block_arg" (BlockParam.decode layout n)
        onSelf := ← r.defaulted "receiver_self" Json.bool? false
        span := ← r.defaulted "span" (Span.decode n) .absent }
  | 0, _ => none

def ClassDecl.decode (layout : Layout) : Nat → Json → Option ClassDecl
  | n + 1, j => do
    let r ← j.record? ["name", "superclass", "is_abstract", "type_vars", "body"]
    pure
      { name := ← r.required "name" Json.text?
        superclass := ← r.optional "superclass" (TypeExpr.decode layout n)
        isAbstract := ← r.defaulted "is_abstract" Json.bool? false
        typeVars := ← r.defaulted "type_vars" (Json.names? n) []
        body := ← r.required "body" (Expr.decodeList layout n) }
  | 0, _ => none

end

namespace Program

def decode (layout : Layout) : Nat → Json → Option Program
  | n + 1, j => do
    let r ← j.record? ["exprs", "source"]
    pure
      { exprs := ← r.required "exprs" (Expr.decodeList layout n)
        source := ← r.defaulted "source" (Json.nullable Json.text?) none }
  | 0, _ => none

end Program

namespace Json

/-- Read a value at hand. -/
def decodeWith {α : Type} (decode : Layout → Nat → Json → Option α) (j : Json) : Option α :=
  decode ⟨false⟩ j.depth j

/-- How deep a text may nest. -/
def textLevels : Nat := 127

/-- Read a value from a text. -/
def decodeText {α : Type} (decode : Layout → Nat → Json → Option α) (text : String) :
    Option α := do
  decode ⟨true⟩ textLevels (← read text)

end Json

/-- The program that a JSON value holds. -/
def Program.ofJson? (j : Json) : Option Program :=
  j.decodeWith Program.decode

/-- The program that a text writes. -/
def Program.ofText? (text : String) : Option Program :=
  Json.decodeText Program.decode text

end Callsite
