import Callsite.Types.Ancestry

/-!
# Unions

The union of types is normalised.  Unions among the members are flattened and
repetitions dropped; `NoReturn` disappears beside anything else; and two classes
below a common ancestor other than the three roots merge into the hierarchy of
their lowest common ancestor.
-/

namespace Callsite.TypeTable

/-- The types of which everything is a subclass; they never become a hierarchy. -/
def isRoot (type : TypeId) : Bool :=
  type == .object || type == .reference || type == .value

/-- The class that a union member can be merged at: a class that is not generic, or the base
of a hierarchy. -/
def mergeClass? (t : TypeTable) (type : TypeId) : Option TypeId :=
  match t.shape type with
  | .cls info => if info.typeVars.isEmpty then some type else none
  | .hierarchy base => some base
  | _ => none

/-- The lowest common ancestor of two members, if they have one below the roots. -/
def commonBase? (t : TypeTable) (a b : TypeId) : Option TypeId := do
  let ca ← t.mergeClass? a
  let cb ← t.mergeClass? b
  let base ← (t.ancestors ca).find? (t.isSubclass cb)
  if isRoot base then none else some base

/-- The members of all types, each of them once. -/
def flatten (t : TypeTable) (types : List TypeId) : List TypeId :=
  types.foldl
    (fun members type =>
      match t.shape type with
      | .union inner => inner.foldl addNew members
      | _ => addNew members type) []

/-- Drop types that equal their neighbours. -/
def dropRepeats : List TypeId → List TypeId
  | a :: b :: rest => if a = b then dropRepeats (b :: rest) else a :: dropRepeats (b :: rest)
  | short => short

/-- The first member of `rest` that merges with `a`: the common base, and `rest` without it. -/
def mergeWith? (t : TypeTable) (a : TypeId) : List TypeId → Option (TypeId × List TypeId)
  | [] => none
  | b :: rest =>
    match t.commonBase? a b with
    | some base => some (base, rest)
    | none => (t.mergeWith? a rest).map fun (base, others) => (base, b :: others)

/-- The first pair of members that merge: those in front of the pair, the common base, and
those behind its first part without the second. -/
def firstMerge? (t : TypeTable) : List TypeId → Option (List TypeId × TypeId × List TypeId)
  | [] => none
  | a :: rest =>
    match t.mergeWith? a rest with
    | some (base, others) => some ([], base, others)
    | none => (t.firstMerge? rest).map fun (front, merged) => (a :: front, merged)

/-- A class with all classes below it. -/
def hierarchy (base : TypeId) : Build TypeId :=
  intern (.hierarchy base)

/-- Merge pairs of members, at most `steps` of them, until no two merge. -/
def mergeMembers : Nat → List TypeId → Build (List TypeId)
  | 0, members => pure members
  | steps + 1, members => do
    match (← get).firstMerge? members with
    | none => pure members
    | some (front, base, others) =>
      let merged ← hierarchy base
      mergeMembers steps (dropRepeats (front ++ merged :: others))

/-- The type of normalised members. -/
def ofMembers : List TypeId → Build TypeId
  | [] => pure .noReturn
  | [only] => pure only
  | members => intern (.union (TypeId.sort members))

/-- The union of types. -/
def unionOf (types : List TypeId) : Build TypeId := do
  let flat := (← get).flatten types
  let members := if 1 < flat.length then flat.filter (· != .noReturn) else flat
  ofMembers (← mergeMembers members.length members)

end Callsite.TypeTable
