import Callsite.Program.Tree

/-!
# Type expressions as text

How messages write type expressions and declared block parameters.  The name of a
resolved type depends on who prints it, so the printer takes it as a parameter.
-/

namespace Callsite

namespace TypeExpr

mutual

/-- The text of a type expression, with `nameOf` for the resolved types in it. -/
def textWith (nameOf : TypeId → String) : TypeExpr → String
  | .path names global => (if global then "::" else "") ++ "::".intercalate names
  | .generic head args =>
    textWith nameOf head ++ "(" ++ ", ".intercalate (textsWith nameOf args) ++ ")"
  | .function inputs output =>
    ", ".intercalate (textsWith nameOf inputs) ++ " ->" ++ resultWith nameOf output
  | .selfType => "self"
  | .resolved type => nameOf type

def textsWith (nameOf : TypeId → String) : List TypeExpr → List String
  | [] => []
  | e :: es => textWith nameOf e :: textsWith nameOf es

/-- What follows the arrow of a function type: nothing when no result is written. -/
def resultWith (nameOf : TypeId → String) : Option TypeExpr → String
  | none => ""
  | some e => " " ++ textWith nameOf e

end

/-- The text of a type expression on its own; resolved types show their number. -/
def text : TypeExpr → String :=
  textWith fun type => "type" ++ toString type.index

end TypeExpr

/-- A declared block as messages show it. -/
def BlockParam.text (b : BlockParam) : String :=
  match b.inputs, b.output with
  | none, none => "&" ++ b.name
  | inputs, output =>
    "&" ++ b.name ++ " : "
      ++ (match inputs with
          | none => ""
          | some types => ", ".intercalate (types.map TypeExpr.text) ++ " ")
      ++ "->"
      ++ (match output with
          | none => ""
          | some type => " " ++ type.text)

end Callsite
