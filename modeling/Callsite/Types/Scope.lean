import Callsite.Types.Ancestry

/-!
# Names in scope

Which type a written path means, and which type parameters the methods of an
owner can use.
-/

namespace Callsite.TypeTable

/-- The type that a path names.  A path that is not global is first read inside the class or
library `scope`. -/
def lookupPath (t : TypeTable) (scope : TypeId) (names : List String) (global : Bool) :
    Option TypeId :=
  let path := "::".intercalate names
  let inner :=
    match t.shape scope with
    | .library info => some info.name
    | .cls info => some info.name
    | _ => none
  let nested :=
    match global, inner with
    | false, some outer => t.constant? (outer ++ "::" ++ path)
    | _, _ => none
  nested <|> t.constant? path

/-- The type whose names an owner sees. -/
def lookupScope (t : TypeTable) (owner : TypeId) : TypeId :=
  let type := t.instanceType owner
  match t.shape type with
  | .hierarchy base => base
  | .applied generic _ => generic
  | .cstruct info => info.library
  | _ => type

/-- The type parameters behind a type, through at most `depth` steps. -/
def typeVarsWithin (t : TypeTable) : Nat → TypeId → List String
  | 0, _ => []
  | depth + 1, type =>
    match t.shape type with
    | .cls info => info.typeVars
    | .applied generic _ => t.typeVarsWithin depth generic
    | .metaclass instances => t.typeVarsWithin depth instances
    | _ => []

/-- The type parameters of a class. -/
def typeVars (t : TypeTable) (type : TypeId) : List String :=
  t.typeVarsWithin (t.size + 1) type

/-- The argument that an applied generic, or its metaclass, gives to a type parameter. -/
def typeArgument? (t : TypeTable) (type : TypeId) (name : String) : Option TypeId :=
  match t.shape (t.instanceType type) with
  | .applied generic args => do
    let index ← (t.typeVars generic).findIdx? (· == name)
    args[index]?
  | _ => none

/-- What a single name means to the methods of `owner`, or nothing when the name is a free
type variable: a type parameter means the argument given to it, any other name the constant. -/
def meaning? (t : TypeTable) (owner : TypeId) (name : String) : Option TypeId :=
  if (t.typeVars (t.instanceType owner)).contains name then t.typeArgument? owner name
  else t.lookupPath (t.lookupScope owner) [name] false

end Callsite.TypeTable
