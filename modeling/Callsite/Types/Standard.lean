import Callsite.Types.Declare

/-!
# The standard types

The classes every program starts with, and their built-in methods.
-/

namespace Callsite.TypeTable

/-- The classes that are always there, in the order of their numbers. -/
def standardClasses : List (String × Option TypeId × List String) :=
  [("Object", none, []),
   ("Reference", some .object, []),
   ("Value", some .object, []),
   ("Nil", some .value, []),
   ("Bool", some .value, []),
   ("Int32", some .value, []),
   ("Char", some .value, []),
   ("Symbol", some .value, []),
   ("Void", some .value, []),
   ("String", some .reference, []),
   ("Array", some .reference, ["T"]),
   ("Pointer", some .value, ["T"])]

/-- The methods that are always there. -/
def standardMethods : List (TypeId × String × List Param × TypeExpr) :=
  let int := TypeExpr.named "Int32"
  let bool := TypeExpr.named "Bool"
  let string := TypeExpr.named "String"
  let elem := TypeExpr.named "T"
  let other := fun type => [Param.typed "other" type]
  ["+", "-", "*"].map (fun op => (TypeId.int32, op, other int, int))
    ++ ["<", "<=", ">", ">=", "=="].map (fun op => (TypeId.int32, op, other int, bool))
    ++ [(.object, "==", [.plain "other"], bool),
        (.object, "to_s", [], string),
        (.string, "cstr", [], .generic (.named "Pointer") [.named "Char"]),
        (.string, "length", [], int),
        (.string, "+", other string, string),
        (.pointer, "value", [], elem),
        (.pointer, "value=", [.typed "value" elem], elem),
        (.array, "size", [], int),
        (.array, "[]", [.typed "index" int], elem),
        (.array, "push", [.typed "value" elem], .generic (.named "Array") [elem])]

def buildStandard : Build Unit := do
  let _ ← push .program
  let _ ← push .noReturn
  bindConstant "NoReturn" .noReturn
  standardClasses.forM fun (name, parent, typeVars) => do
    let _ ← newClass name parent false typeVars
  standardMethods.forM fun (owner, name, params, result) => do
    let _ ← primitive owner name params result

/-- The table before anything is declared. -/
def standard : TypeTable :=
  (buildStandard empty).2

end Callsite.TypeTable
