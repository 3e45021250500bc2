import Callsite.Types.Derived
import Callsite.Types.Name

/-!
# Declarations

Classes, libraries, foreign functions and foreign structs enter the table here,
together with the methods that come with them.
-/

namespace Callsite

/-- Record a class below another one. -/
def Shape.addSubclass (child : TypeId) : Shape → Shape
  | .cls info => .cls { info with subclasses := info.subclasses ++ [child] }
  | other => other

/-- Record a function of a library, instead of an earlier one of the same name. -/
def Shape.addExternal (external : External) : Shape → Shape
  | .library info =>
    .library
      { info with
        externals := info.externals.filter (·.name != external.name) ++ [external] }
  | other => other

namespace TypeTable

/-- A new class, which its parent lists. -/
def newClass (name : String) (parent : Option TypeId) (isAbstract : Bool)
    (typeVars : List String) : Build TypeId := do
  let type ← push (.cls ⟨name, parent, isAbstract, [], typeVars⟩)
  if let some above := parent then
    updateShape above (Shape.addSubclass type)
  bindConstant name type
  pure type

/-- The class of a name. -/
def declaredClass? (t : TypeTable) (name : String) : Option TypeId :=
  (t.constant? name).filter t.isClass

/-- Declare a class: the class of that name if there is one, and a new class below the given
parent, or below `Reference`, otherwise.  The flag says whether the class is new. -/
def declareClass (name : String) (parent : Option TypeId) (isAbstract : Bool)
    (typeVars : List String) : Build (TypeId × Bool) := do
  match (← get).declaredClass? name with
  | some type => pure (type, false)
  | none =>
    let type ← newClass name (some (parent.getD .reference)) isAbstract typeVars
    pure (type, true)

/-- Declare a library: the one of that name if there is one, and a new one otherwise. -/
def declareLibrary (name : String) : Build TypeId := do
  let t ← get
  match (t.constant? name).filter t.isLibrary with
  | some type => pure type
  | none =>
    let type ← push (.library ⟨name, []⟩)
    bindConstant name type
    pure type

/-- Declare a function of a library. -/
def declareExternal (library : TypeId) (name : String) (params : List (String × TypeId))
    (result : TypeId) (variadic : Bool) : Build MethodId := do
  let typed := params.map fun (param, type) => Param.typed param (.resolved type)
  let method ← register library
    (.generated name typed (.generated (.primitive (.resolved result)))) .external
  updateShape library (Shape.addExternal ⟨name, params, result, variadic, method⟩)
  pure method

/-- The accessors of a field. -/
def declareField (struct : TypeId) (field : String) (type : TypeId) : Build Unit := do
  let _ ← primitive struct field [] (.resolved type)
  let _ ← primitive struct (field ++ "=") [.typed "value" (.resolved type)] (.resolved type)

/-- Declare a struct of a library, with its accessors and its allocator. -/
def declareStruct (library : TypeId) (name : String) (fields : List (String × TypeId)) :
    Build TypeId := do
  let fullName := (← get).name library ++ "::" ++ name
  let type ← push (.cstruct ⟨fullName, library, fields⟩)
  bindConstant fullName type
  fields.forM fun (field, fieldType) => declareField type field fieldType
  let metaType ← metaclass type
  let _ ← register metaType (.generated "new" [] (.generated (.allocate none))) .primitive
  pure type

end TypeTable

end Callsite
