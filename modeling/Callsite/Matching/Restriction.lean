import Callsite.Matching.Narrowing
import Callsite.NameMap
import Callsite.Types.Scope

/-!
# Restrictions

A parameter may restrict its argument by a type expression.  A name that means
no type is a free type variable: it is bound to the argument it first meets, and
the arguments it meets later are narrowed to that type.  Applied generics and
function types have to agree part by part.
-/

namespace Callsite

/-- The types bound to free type variables. -/
abbrev Bindings := NameMap TypeId

namespace TypeTable

/-- The generic class at the head of an applied generic type expression. -/
def genericHead? (t : TypeTable) (owner : TypeId) : TypeExpr → Option TypeId
  | .path names global => t.lookupPath (t.lookupScope owner) names global
  | .resolved type => some type
  | _ => none

mutual

/-- Whether `actual` is exactly the written type, as the methods of `owner` read it; free
variables are bound on the way, also when a later part turns out to differ. -/
def agrees (t : TypeTable) (owner : TypeId) : TypeExpr → TypeId → Bindings → Bool × Bindings
  | .path [name] false, actual, free =>
    match free.get? name with
    | some bound => (bound == actual, free)
    | none =>
      match t.meaning? owner name with
      | some type => (type == actual, free)
      | none => (true, free.insert name actual)
  | .path names global, actual, free =>
    (t.lookupPath (t.lookupScope owner) names global == some actual, free)
  | .selfType, actual, free => (t.instanceType owner == actual, free)
  | .resolved type, actual, free => (type == actual, free)
  | .generic head args, actual, free =>
    match t.genericHead? owner head, t.shape actual with
    | some generic, .applied generic' actuals =>
      if generic' = generic ∧ actuals.length = args.length then
        agreesAll t owner args actuals free
      else (false, free)
    | _, _ => (false, free)
  | .function inputs output, actual, free =>
    match t.shape actual with
    | .function actuals result =>
      if actuals.length = inputs.length then
        match agreesAll t owner inputs actuals free with
        | (true, bound) => agreesResult t owner output result bound
        | (false, bound) => (false, bound)
      else (false, free)
    | _ => (false, free)

/-- Whether types agree with the written ones one by one; stops at the first that does not. -/
def agreesAll (t : TypeTable) (owner : TypeId) :
    List TypeExpr → List TypeId → Bindings → Bool × Bindings
  | e :: es, actual :: actuals, free =>
    match agrees t owner e actual free with
    | (true, bound) => agreesAll t owner es actuals bound
    | (false, bound) => (false, bound)
  | _, _, free => (true, free)

/-- Whether a result agrees with the written one; any does when none is written. -/
def agreesResult (t : TypeTable) (owner : TypeId) :
    Option TypeExpr → TypeId → Bindings → Bool × Bindings
  | none, _, free => (true, free)
  | some e, actual, free => agrees t owner e actual free

end

/-- Restrict a type that is no union and not captured by a free variable. -/
def restrictPart (owner : TypeId) (restriction : TypeExpr) (part : TypeId) (free : Bindings) :
    Build (Option TypeId × Bindings) := do
  let t ← get
  match restriction with
  | .path [name] false =>
    match free.get? name <|> t.meaning? owner name with
    | some type => pure (← narrowTo part type, free)
    | none => pure (some part, free.insert name part)
  | .path names global =>
    match t.lookupPath (t.lookupScope owner) names global with
    | some type => pure (← narrowTo part type, free)
    | none => pure (none, free)
  | .selfType => pure (← narrowTo part (t.instanceType owner), free)
  | .resolved type => pure (← narrowTo part type, free)
  | .generic _ _ | .function _ _ =>
    let (same, bound) := t.agrees owner restriction part free
    pure (if same then some part else none, bound)

/-- Restrict the members of a union in order; bindings made by one are seen by the next. -/
def restrictMembers (owner : TypeId) (restriction : TypeExpr) :
    List TypeId → Bindings → Build (List TypeId × Bindings)
  | [], free => pure ([], free)
  | member :: rest, free => do
    let (kept, bound) ← restrictPart owner restriction member free
    let (others, bound) ← restrictMembers owner restriction rest bound
    pure (kept.toList ++ others, bound)

/-- Whether a restriction is a free variable that nothing is bound to yet. -/
def isUnboundVariable (t : TypeTable) (owner : TypeId) (restriction : TypeExpr)
    (free : Bindings) : Bool :=
  match restriction.singleName with
  | some name => !free.contains name && (t.meaning? owner name).isNone
  | none => false

/-- The part of `arg` that a restriction of a method of `owner` accepts, with the bindings of
free variables afterwards.  An unbound variable takes the whole argument, be it a union. -/
def restrict (owner : TypeId) (restriction : TypeExpr) (arg : TypeId) (free : Bindings) :
    Build (Option TypeId × Bindings) := do
  let t ← get
  if t.isUnboundVariable owner restriction free then restrictPart owner restriction arg free
  else
    match t.shape arg with
    | .union members => do
      let (kept, bound) ← restrictMembers owner restriction members free
      pure (← unionOfKept kept, bound)
    | _ => restrictPart owner restriction arg free

end TypeTable

end Callsite
