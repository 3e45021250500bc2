import Callsite.Types.Union

/-!
# Types built from types

Metaclasses, applied generics, pointers, arrays and function types.  A function
type comes with its method `call`.
-/

namespace Callsite.TypeTable

/-- The metaclass of a type that is no union; libraries, the program and `NoReturn` are
their own. -/
def metaclassOfPart (type : TypeId) : Build TypeId := do
  match (← get).shape type with
  | .hierarchy base => intern (.hierarchyMetaclass base)
  | .library _ | .noReturn | .program => pure type
  | _ => intern (.metaclass type)

/-- The metaclass of a type; that of a union is the union of its members' metaclasses. -/
def metaclass (type : TypeId) : Build TypeId := do
  match (← get).shape type with
  | .union members => unionOf (← members.mapM metaclassOfPart)
  | _ => metaclassOfPart type

def apply (generic : TypeId) (args : List TypeId) : Build TypeId :=
  intern (.applied generic args)

def pointerTo (type : TypeId) : Build TypeId :=
  apply .pointer [type]

def arrayOf (type : TypeId) : Build TypeId :=
  apply .array [type]

/-- The parameters `arg0`, `arg1`, … restricted to the given types. -/
def numberedParams (types : List TypeId) : List Param :=
  types.mapIdx fun i type => .typed ("arg" ++ toString i) (.resolved type)

/-- The type of functions, which comes with its method `call`. -/
def functionOf (args : List TypeId) (result : TypeId) : Build TypeId := do
  match (← get).find? (.function args result) with
  | some type => pure type
  | none =>
    let type ← push (.function args result)
    let _ ← primitive type "call" (numberedParams args) (.resolved result)
    pure type

end Callsite.TypeTable
