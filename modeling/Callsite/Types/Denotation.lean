import Callsite.Failure
import Callsite.Matching.Restriction
import Callsite.Types.Derived
import Callsite.Types.Name

/-!
# What type expressions denote

Restrictions are matched part by part against an argument.  Everywhere else a
type expression has to denote one type: block signatures, allocations, constants
used as values, declarations of foreign functions.
-/

namespace Callsite

/-- Computations that may add types and may fail; what was added stays when they fail. -/
abbrev Denote := EStateM Failure TypeTable

def Denote.ofBuild {α : Type} (build : Build α) : Denote α := fun t =>
  let (a, t') := build t
  .ok a t'

namespace TypeTable

/-- The generic class at the head of an applied type expression has to take as many type
arguments as are written. -/
def checkGeneric (generic : TypeId) (given : Nat) (span : Span) : Denote Unit := do
  let t ← get
  match t.shape generic with
  | .cls info =>
    if info.typeVars.isEmpty then throw (.of (.notGeneric (t.name generic)) span)
    else if info.typeVars.length ≠ given then
      throw (.of (.typeArgumentCount (t.name generic) given info.typeVars.length) span)
    else pure ()
  | _ => throw (.of (.notGeneric (t.name generic)) span)

/-- The type that a path denotes to the methods of `owner`: a bound variable, an argument of an
applied generic, or a constant. -/
def pathType? (t : TypeTable) (owner : TypeId) (free : Bindings) (names : List String)
    (global : Bool) : Option TypeId :=
  let bound :=
    match global, names with
    | false, [name] => free.get? name <|> t.typeArgument? owner name
    | _, _ => none
  bound <|> t.lookupPath (t.lookupScope owner) names global

mutual

/-- The type that a type expression means for an owner. -/
def denote (owner : TypeId) (free : Bindings) (span : Span) : TypeExpr → Denote TypeId
  | .path names global => do
    match (← get).pathType? owner free names global with
    | some type => pure type
    | none => throw (.of (.unknownConstant (TypeExpr.path names global).text) span)
  | .selfType => pure owner
  | .resolved type => pure type
  | .generic head args => do
    let generic ← denote owner free span head
    checkGeneric generic args.length span
    let types ← denoteAll owner free span args
    Denote.ofBuild (apply generic types)
  | .function inputs output => do
    let types ← denoteAll owner free span inputs
    let result ← denoteResult owner free span output
    Denote.ofBuild (functionOf types result)

def denoteAll (owner : TypeId) (free : Bindings) (span : Span) :
    List TypeExpr → Denote (List TypeId)
  | [] => pure []
  | e :: es => do
    let type ← denote owner free span e
    let types ← denoteAll owner free span es
    pure (type :: types)

/-- The type of a result, which is `Void` unless it is declared. -/
def denoteResult (owner : TypeId) (free : Bindings) (span : Span) :
    Option TypeExpr → Denote TypeId
  | none => pure .void
  | some e => denote owner free span e

end

end TypeTable

end Callsite
