import Callsite.Types.Union

/-!
# Narrowing

Narrowing an argument type to a target keeps the part whose values belong to the
target.  A union is narrowed member by member, and a hierarchy above the target
becomes the hierarchy of the target.
-/

namespace Callsite.TypeTable

/-- The class that a target asks for: a class, or the base of a hierarchy. -/
def targetClass? (t : TypeTable) (target : TypeId) : Option TypeId :=
  match t.shape target with
  | .cls _ | .applied _ _ => some target
  | .hierarchy base => some base
  | _ => none

/-- What is left of a type that is no union. -/
def narrowPart (part target : TypeId) : Build (Option TypeId) := do
  let t ← get
  if part = target then return some part
  match t.shape part with
  | .hierarchy base =>
    match t.targetClass? target with
    | none => pure none
    | some cls =>
      if t.isSubclass base cls then pure (some part)
      else if t.isSubclass cls base then some <$> hierarchy cls
      else pure none
  | .metaclass cls | .hierarchyMetaclass cls =>
    match t.shape target with
    | .metaclass above | .hierarchyMetaclass above =>
      pure (if t.isSubclass cls above then some part else none)
    | _ => pure none
  | .noReturn => pure (some part)
  | _ =>
    match t.targetClass? target with
    | none => pure none
    | some cls => pure (if t.isSubclass part cls then some part else none)

/-- The union of what was kept, if anything was. -/
def unionOfKept : List TypeId → Build (Option TypeId)
  | [] => pure none
  | kept => some <$> unionOf kept

/-- What is left of the members of a union. -/
def narrowMembers (target : TypeId) : List TypeId → Build (List TypeId)
  | [] => pure []
  | member :: rest => do
    let kept ← narrowPart member target
    let others ← narrowMembers target rest
    pure (kept.toList ++ others)

/-- The part of `arg` whose values belong to `target`, if there is one. -/
def narrowTo (arg target : TypeId) : Build (Option TypeId) := do
  if arg = target then return some arg
  match (← get).shape arg with
  | .union members => unionOfKept (← narrowMembers target members)
  | _ => narrowPart arg target

end Callsite.TypeTable
