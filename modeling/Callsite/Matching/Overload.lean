import Callsite.Matching.Cover
import Callsite.Matching.Restriction
import Callsite.Method.Lookup

/-!
# Overload resolution

The methods of a name are tried in the order of lookup.  A method is kept when
its restrictions accept the arguments and it covers a tuple that no earlier
method covers, so an override hides the method it overrides; the search ends
when every tuple is covered.
-/

namespace Callsite

/-- How a match came about. -/
inductive MatchKind where
  | direct
  | constructor
  | methodMissing
  | foreign
  deriving DecidableEq, Repr, Inhabited

/-- A method that applies to a call. -/
structure Match where
  method : MethodId
  owner : TypeId
  args : List TypeId
  free : Bindings
  kind : MatchKind
  deriving DecidableEq, Repr

/-- The matches found on one owner.  Generated methods come without a cover, since they fit
the call they were made for. -/
structure MatchSet where
  found : List Match
  cover : Option Cover
  owner : TypeId
  deriving Repr

namespace MatchSet

/-- Matches that fit the call they were made for. -/
def complete (found : List Match) (owner : TypeId) : MatchSet :=
  ⟨found, none, owner⟩

/-- Matches that leave a tuple uncovered count as none. -/
def isEmpty (m : MatchSet) : Bool :=
  m.found.isEmpty || m.cover.any fun c => !c.isComplete

/-- The tuples of argument types that no match covers. -/
def missing (m : MatchSet) : List (List TypeId) :=
  (m.cover.map Cover.missing).getD []

end MatchSet

namespace TypeTable

/-- Restrict arguments by the parameters they are passed to, in order. -/
def restrictArgs (owner : TypeId) :
    List Param → List TypeId → Bindings → Build (Option (List TypeId) × Bindings)
  | param :: params, arg :: args, free => do
    let (first, bound) ←
      match param.restriction with
      | none => pure (some arg, free)
      | some restriction => restrict owner restriction arg free
    match first with
    | none => pure (none, bound)
    | some type =>
      let (rest, bound) ← restrictArgs owner params args bound
      pure (rest.map (type :: ·), bound)
  | _, _, free => pure (some [], free)

/-- Match one method with arguments; nothing when a restriction rejects its argument. -/
def matchMethod (method : MethodId) (owner : TypeId) (args : List TypeId) :
    Build (Option Match) := do
  let params := ((← get).method method).decl.params
  let (restricted, free) ← restrictArgs owner params args .empty
  pure (restricted.map fun types => ⟨method, owner, types, free, .direct⟩)

/-- Keep the candidates that cover something new, until the cover is complete. -/
def collectMatches (owner : TypeId) (args : List TypeId) :
    List MethodId → Cover → Build (List Match × Cover)
  | [], cover => pure ([], cover)
  | candidate :: rest, cover => do
    if cover.isComplete then pure ([], cover)
    else
      match ← matchMethod candidate owner args with
      | none => collectMatches owner args rest cover
      | some found =>
        let (wider, isNew) := cover.add (← get) found.args
        let (others, final) ← collectMatches owner args rest wider
        pure (if isNew then found :: others else others, final)

/-- The matches for a call of a name on an owner. -/
def lookupMatches (owner : TypeId) (name : String) (args : List TypeId) (hasBlock : Bool) :
    Build MatchSet := do
  let t ← get
  let candidates := t.fittingMethods owner name args.length hasBlock
  let (found, cover) ← collectMatches owner args candidates (.ofArgs t args)
  pure ⟨found, some cover, owner⟩

end TypeTable

end Callsite
