import Callsite.Method.Table

/-!
# The table of types

A type is a position in a table of shapes.  Classes, libraries and structs get a
new position for every declaration; the other shapes are interned, so two types
of the same shape are the same position and equality of types is equality of
positions.
-/

namespace Callsite

/-- A class as it is declared. -/
structure ClassInfo where
  name : String
  parent : Option TypeId
  isAbstract : Bool
  /-- The classes declared directly below this one, in order. -/
  subclasses : List TypeId
  /-- The type parameters of a generic class; none for any other. -/
  typeVars : List String
  deriving DecidableEq, Repr, Inhabited

/-- A function of a foreign library, with the method that stands for it. -/
structure External where
  name : String
  params : List (String × TypeId)
  result : TypeId
  variadic : Bool
  method : MethodId
  deriving DecidableEq, Repr, Inhabited

structure LibraryInfo where
  name : String
  externals : List External
  deriving DecidableEq, Repr, Inhabited

/-- A struct of a foreign library; its name includes the library's. -/
structure StructInfo where
  name : String
  library : TypeId
  fields : List (String × TypeId)
  deriving DecidableEq, Repr, Inhabited

/-- What a type is made of. -/
inductive Shape where
  | program
  | cls (info : ClassInfo)
  | metaclass (instances : TypeId)
  /-- A class with all present and future subclasses, `Foo+`. -/
  | hierarchy (base : TypeId)
  | hierarchyMetaclass (base : TypeId)
  /-- A generic class applied to type arguments, `Array(Int32)`. -/
  | applied (generic : TypeId) (args : List TypeId)
  | union (members : List TypeId)
  | function (args : List TypeId) (result : TypeId)
  | library (info : LibraryInfo)
  | cstruct (info : StructInfo)
  /-- The type of an expression that does not come back. -/
  | noReturn
  deriving DecidableEq, Repr, Inhabited

/-- The types of a run, the constants that name them, and their methods. -/
structure TypeTable where
  shapes : Array Shape
  /-- Constants, the latest first; an earlier one of the same name is hidden. -/
  constants : List (String × TypeId)
  methods : MethodTable
  deriving Inhabited

/-- Computations that may add types and methods. -/
abbrev Build := StateM TypeTable

namespace TypeTable

def empty : TypeTable := ⟨#[], [], .empty⟩

def size (t : TypeTable) : Nat :=
  t.shapes.size

/-- The shape of a type; a position outside the table reads as `noReturn`. -/
def shape (t : TypeTable) (type : TypeId) : Shape :=
  t.shapes[type.index]?.getD .noReturn

/-- The first type of a shape.  The search stands for an index of the interned shapes by their
contents, which has the same answers because such a shape is in the table once. -/
def find? (t : TypeTable) (shape : Shape) : Option TypeId :=
  (t.shapes.toList.findIdx? (· == shape)).map TypeId.mk

def constant? (t : TypeTable) (name : String) : Option TypeId :=
  t.constants.lookup name

def method (t : TypeTable) (id : MethodId) : Method :=
  t.methods.get id

/-- Add a shape, whether it is there or not. -/
def push (shape : Shape) : Build TypeId := fun t =>
  (⟨t.shapes.size⟩, { t with shapes := t.shapes.push shape })

/-- The type of a shape, which is added only if the search does not find it: a table with an index
would enter the new type there too. -/
def intern (shape : Shape) : Build TypeId := fun t =>
  match t.find? shape with
  | some type => (type, t)
  | none => push shape t

/-- Let a name mean a type. -/
def bindConstant (name : String) (type : TypeId) : Build Unit :=
  modify fun t => { t with constants := (name, type) :: t.constants }

def updateShape (type : TypeId) (f : Shape → Shape) : Build Unit :=
  modify fun t => { t with shapes := t.shapes.modify type.index f }

/-- Register a method on an owner. -/
def register (owner : TypeId) (decl : MethodDecl) (origin : Origin) : Build MethodId := fun t =>
  let (id, methods) := t.methods.register owner decl origin
  (id, { t with methods })

/-- Register a method that is built in. -/
def primitive (owner : TypeId) (name : String) (params : List Param) (result : TypeExpr) :
    Build MethodId :=
  register owner (.generated name params (.generated (.primitive result))) .primitive

/-! ## Kinds of types -/

def isClass (t : TypeTable) (type : TypeId) : Bool :=
  match t.shape type with
  | .cls _ | .applied _ _ => true
  | _ => false

def isHierarchy (t : TypeTable) (type : TypeId) : Bool :=
  match t.shape type with
  | .hierarchy _ | .hierarchyMetaclass _ => true
  | _ => false

def isUnion (t : TypeTable) (type : TypeId) : Bool :=
  match t.shape type with
  | .union _ => true
  | _ => false

/-- Whether a class has no objects of its own. -/
def isAbstract (t : TypeTable) (type : TypeId) : Bool :=
  match t.shape type with
  | .cls info => info.isAbstract
  | _ => false

def isPointer (t : TypeTable) (type : TypeId) : Bool :=
  match t.shape type with
  | .applied generic _ => generic == .pointer
  | _ => false

def isLibrary (t : TypeTable) (type : TypeId) : Bool :=
  match t.shape type with
  | .library _ => true
  | _ => false

def isStruct (t : TypeTable) (type : TypeId) : Bool :=
  match t.shape type with
  | .cstruct _ => true
  | _ => false

def isMetaclass (t : TypeTable) (type : TypeId) : Bool :=
  match t.shape type with
  | .metaclass _ | .hierarchyMetaclass _ => true
  | _ => false

def isFunction (t : TypeTable) (type : TypeId) : Bool :=
  match t.shape type with
  | .function _ _ => true
  | _ => false

/-- What a pointer points to. -/
def pointee? (t : TypeTable) (type : TypeId) : Option TypeId :=
  match t.shape type with
  | .applied generic args => if generic == .pointer then args.head? else none
  | _ => none

end TypeTable

def StructInfo.field? (s : StructInfo) (name : String) : Option TypeId :=
  s.fields.lookup name

def LibraryInfo.external? (l : LibraryInfo) (name : String) : Option External :=
  l.externals.find? (·.name == name)

end Callsite
