import Callsite.Types.Table

/-!
# Ancestors and members

Upwards, a class has a parent and a chain of ancestors.  Downwards, a hierarchy
stands for the concrete classes at or below its base, and a union for the
concrete types of its members.  Both walks are bounded by the size of the table,
because a parent stands before its children.
-/

namespace Callsite.TypeTable

/-- The class above a type, through at most `depth` applied generics. -/
def parentWithin (t : TypeTable) : Nat → TypeId → Option TypeId
  | 0, _ => none
  | depth + 1, type =>
    match t.shape type with
    | .cls info => info.parent
    | .applied generic _ => t.parentWithin depth generic
    | _ => none

/-- The class above a type; an applied generic has the parent of its class. -/
def parent? (t : TypeTable) (type : TypeId) : Option TypeId :=
  t.parentWithin (t.size + 1) type

/-- A type followed by what stands above it, at most `depth` types. -/
def chainWithin (t : TypeTable) : Nat → TypeId → List TypeId
  | 0, _ => []
  | depth + 1, type =>
    type :: match t.parent? type with
      | none => []
      | some above => t.chainWithin depth above

/-- The first step upwards: an applied generic is followed by its generic class. -/
def above? (t : TypeTable) (type : TypeId) : Option TypeId :=
  match t.shape type with
  | .cls info => info.parent
  | .applied generic _ => some generic
  | _ => none

/-- The classes above a type, itself first. -/
def ancestors (t : TypeTable) (type : TypeId) : List TypeId :=
  type :: match t.above? type with
    | none => []
    | some above => t.chainWithin t.size above

/-- Whether a class stands at or below another one. -/
def isSubclass (t : TypeTable) (type ancestor : TypeId) : Bool :=
  (t.ancestors type).contains ancestor

def addNew (types : List TypeId) (type : TypeId) : List TypeId :=
  if types.contains type then types else types ++ [type]

/-- Add the concrete classes at or below a class, at most `depth` levels down, to `found`. -/
def descendantsWithin (t : TypeTable) : Nat → List TypeId → TypeId → List TypeId
  | 0, found, _ => found
  | depth + 1, found, type =>
    match t.shape type with
    | .cls info =>
      info.subclasses.foldl (t.descendantsWithin depth)
        (if info.isAbstract then found else addNew found type)
    | _ => found

/-- The concrete classes at or below a class, parents before children. -/
def descendants (t : TypeTable) (base : TypeId) : List TypeId :=
  t.descendantsWithin (t.size + 1) [] base

/-- Append the concrete types of a type. -/
def addConcrete (t : TypeTable) (found : List TypeId) (type : TypeId) : List TypeId :=
  match t.shape type with
  | .hierarchy base => t.descendantsWithin (t.size + 1) found base
  | .hierarchyMetaclass base =>
    ((t.descendants base).filterMap fun c => t.find? (.metaclass c)).foldl addNew found
  | _ => addNew found type

/-- The types that a value of `type` can have when the program runs.  Of the metaclasses
of a hierarchy only those in the table count. -/
def concreteTypes (t : TypeTable) (type : TypeId) : List TypeId :=
  match t.shape type with
  | .union members => members.foldl t.addConcrete []
  | _ => t.addConcrete [] type

/-- Whether a value of a type can have another, concrete one. -/
def includes (t : TypeTable) (type other : TypeId) : Bool :=
  type == other || (t.concreteTypes type).contains other

/-- What the instances of a metaclass are; any other type is its own instance type. -/
def instanceType (t : TypeTable) (type : TypeId) : TypeId :=
  match t.shape type with
  | .metaclass instances => instances
  | .hierarchyMetaclass base => (t.find? (.hierarchy base)).getD base
  | _ => type

end Callsite.TypeTable
