import Callsite.Program.TypeText
import Callsite.Types.Table

/-!
# Names of types

The text that messages and tables show for a type.  The parts of a type stand
before it in the table, so the size of the table bounds the depth of a name.
-/

namespace Callsite.TypeTable

/-- The name of a type, looking through at most `depth` levels of parts. -/
def nameWithin (t : TypeTable) : Nat → TypeId → String
  | 0, _ => ""
  | depth + 1, type =>
    match t.shape type with
    | .program => "<Program>"
    | .cls info => info.name
    | .metaclass instances => t.nameWithin depth instances ++ ":Class"
    | .hierarchy base => t.nameWithin depth base ++ "+"
    | .hierarchyMetaclass base => t.nameWithin depth base ++ "+:Class"
    | .applied generic args =>
      t.nameWithin depth generic ++ "(" ++ ", ".intercalate (args.map (t.nameWithin depth)) ++ ")"
    | .union members => " | ".intercalate (members.map (t.nameWithin depth))
    | .function args result =>
      (if args.isEmpty then "" else ", ".intercalate (args.map (t.nameWithin depth)) ++ " ")
        ++ "-> " ++ t.nameWithin depth result
    | .library info => info.name
    | .cstruct info => info.name
    | .noReturn => "NoReturn"

/-- The name of a type as messages show it. -/
def name (t : TypeTable) (type : TypeId) : String :=
  t.nameWithin (t.size + 1) type

def names (t : TypeTable) (types : List TypeId) : String :=
  ", ".intercalate (types.map t.name)

def exprText (t : TypeTable) (e : TypeExpr) : String :=
  e.textWith t.name

end Callsite.TypeTable
