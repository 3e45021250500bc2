import Callsite.Json.Value
import Callsite.Program.Tree

/-!
# Programs as JSON

How a program is written as a JSON value.  Records are objects with all their
fields, a variant is an object whose only key is its tag, and a variant without
contents is the bare tag.
-/

namespace Callsite

/-- A variant with what belongs to it. -/
def Json.tagged (tag : String) (contents : Json) : Json :=
  .obj [(tag, contents)]

def Json.ofOption : Option Json → Json
  | none => .null
  | some j => j

def Json.ofNames (names : List String) : Json :=
  .arr (names.map Json.text)

namespace Span

def toJson (s : Span) : Json :=
  .obj
    [ ("start", .int s.start.toNat),
      ("end", .int s.stop.toNat),
      ("start_line", .int s.line.toNat),
      ("start_col", .int s.column.toNat) ]

end Span

namespace TypeExpr

mutual

def toJson : TypeExpr → Json
  | .path names global =>
    .tagged "Path" (.obj [("names", .ofNames names), ("global", .bool global)])
  | .generic head args =>
    .tagged "Generic" (.obj [("name", toJson head), ("args", .arr (toJsonList args))])
  | .function inputs output =>
    .tagged "Fun" (.obj [("inputs", .arr (toJsonList inputs)), ("output", toJsonOption output)])
  | .selfType => .text "SelfType"
  | .resolved type => .tagged "Resolved" (.obj [("index", .int type.index)])

def toJsonList : List TypeExpr → List Json
  | [] => []
  | e :: es => toJson e :: toJsonList es

def toJsonOption : Option TypeExpr → Json
  | none => .null
  | some e => toJson e

end

end TypeExpr

def TypeExpr.pairToJson (pair : String × TypeExpr) : Json :=
  .arr [.text pair.1, pair.2.toJson]

def BlockParam.toJson (b : BlockParam) : Json :=
  .obj
    [ ("name", .text b.name),
      ("inputs", .ofOption (b.inputs.map fun types => .arr (types.map TypeExpr.toJson))),
      ("output", .ofOption (b.output.map TypeExpr.toJson)) ]

def ForeignFunction.toJson (f : ForeignFunction) : Json :=
  .obj
    [ ("name", .text f.name),
      ("params", .arr (f.params.map TypeExpr.pairToJson)),
      ("ret", .ofOption (f.result.map TypeExpr.toJson)),
      ("varargs", .bool f.variadic) ]

def ForeignStruct.toJson (s : ForeignStruct) : Json :=
  .obj [("name", .text s.name), ("fields", .arr (s.fields.map TypeExpr.pairToJson))]

def LibraryDecl.toJson (l : LibraryDecl) : Json :=
  .obj
    [ ("name", .text l.name),
      ("funs", .arr (l.functions.map ForeignFunction.toJson)),
      ("structs", .arr (l.structs.map ForeignStruct.toJson)) ]

mutual

def Expr.toJson : Expr → Json
  | ⟨form, span⟩ => .obj [("kind", form.toJson), ("span", span.toJson)]

/-- What an expression is made of, as a variant. -/
def Form.toJson : Form → Json
  | .nil => .text "Nil"
  | .bool value => .tagged "Bool" (.bool value)
  | .int value => .tagged "Int" (.int value.toInt)
  | .char value => .tagged "Char" (.text (String.singleton value))
  | .str value => .tagged "Str" (.text value)
  | .symbol name => .tagged "Symbol" (.text name)
  | .array items => .tagged "Array" (.arr (Expr.toJsonList items))
  | .var name => .tagged "Var" (.text name)
  | .selfRef => .text "SelfRef"
  | .assign target value =>
    .tagged "Assign" (.obj [("target", .text target), ("value", value.toJson)])
  | .out name => .tagged "Out" (.text name)
  | .path type => .tagged "Path" type.toJson
  | .call call => .tagged "Call" call.toJson
  | .yield args => .tagged "Yield" (.arr (Expr.toJsonList args))
  | .seq items => .tagged "Seq" (.arr (Expr.toJsonList items))
  | .branch test yes no =>
    .tagged "If" (.obj [("cond", test.toJson), ("then", yes.toJson), ("otherwise", no.toJson)])
  | .method decl => .tagged "Def" decl.toJson
  | .classDecl decl => .tagged "ClassDef" decl.toJson
  | .library decl => .tagged "LibDef" decl.toJson
  | .primitive type => .tagged "Primitive" type.toJson
  | .allocate type => .tagged "Allocate" (.ofOption (type.map TypeExpr.toJson))
  | .function params body =>
    .tagged "FunLiteral" (.obj [("params", .arr (Param.toJsonList params)), ("body", body.toJson)])
  | .classOf value => .tagged "ClassOf" value.toJson

def Expr.toJsonList : List Expr → List Json
  | [] => []
  | e :: es => e.toJson :: Expr.toJsonList es

def Expr.toJsonOption : Option Expr → Json
  | none => .null
  | some e => e.toJson

def Call.toJson : Call → Json
  | ⟨receiver, name, args, block, blockArg, hasParens⟩ =>
    .obj
      [ ("obj", Expr.toJsonOption receiver),
        ("name", .text name),
        ("args", .arr (Expr.toJsonList args)),
        ("block", Block.toJsonOption block),
        ("block_arg", Expr.toJsonOption blockArg),
        ("has_parens", .bool hasParens) ]

def Block.toJsonOption : Option Block → Json
  | none => .null
  | some ⟨params, body⟩ => .obj [("args", .ofNames params), ("body", Expr.toJsonOption body)]

def Param.toJson : Param → Json
  | ⟨name, default, restriction⟩ =>
    .obj
      [ ("name", .text name),
        ("default", Expr.toJsonOption default),
        ("restriction", .ofOption (restriction.map TypeExpr.toJson)) ]

def Param.toJsonList : List Param → List Json
  | [] => []
  | p :: ps => p.toJson :: Param.toJsonList ps

def MethodDecl.toJson : MethodDecl → Json
  | ⟨name, params, body, blockParam, onSelf, span⟩ =>
    .obj
      [ ("name", .text name),
        ("params", .arr (Param.toJsonList params)),
        ("body", Expr.toJsonOption body),
        ("block_arg", .ofOption (blockParam.map BlockParam.toJson)),
        ("receiver_self", .bool onSelf),
        ("span", span.toJson) ]

def ClassDecl.toJson : ClassDecl → Json
  | ⟨name, superclass, isAbstract, typeVars, body⟩ =>
    .obj
      [ ("name", .text name),
        ("superclass", .ofOption (superclass.map TypeExpr.toJson)),
        ("is_abstract", .bool isAbstract),
        ("type_vars", .ofNames typeVars),
        ("body", .arr (Expr.toJsonList body)) ]

end

/-- A program as the value that is read back as it. -/
def Program.toJson (p : Program) : Json :=
  .obj
    [ ("exprs", .arr (Expr.toJsonList p.exprs)),
      ("source", .ofOption (p.source.map Json.text)) ]

end Callsite
