import Callsite.Ident
import Callsite.ListMap

/-!
# Calls that watch class hierarchies

A call that was resolved through a hierarchy depends on the classes below its
base.  It is registered here with the base, and is resolved again when a class is
declared below it.
-/

namespace Callsite

/-- The calls that watch each base, and the bases that each call watches.  The two maps are
changed one after the other, and have to say the same. -/
structure SubclassWatch where
  byBase : ListMap TypeId CallId
  registrations : ListMap CallId TypeId
  deriving DecidableEq, Repr, Inhabited

namespace SubclassWatch

/-- Nothing is watched. -/
def empty : SubclassWatch := ⟨.empty, .empty⟩

/-- The calls that watch a base, in the order of registration. -/
def observers (w : SubclassWatch) (base : TypeId) : List CallId :=
  w.byBase.values base

/-- The bases that a call watches. -/
def bases (w : SubclassWatch) (call : CallId) : List TypeId :=
  w.registrations.values call

/-- Whether a call is registered with a base. -/
def contains (w : SubclassWatch) (call : CallId) (base : TypeId) : Bool :=
  (w.bases call).contains base

/-- Register a call with a base, unless it is registered with it already. -/
def add (w : SubclassWatch) (call : CallId) (base : TypeId) : SubclassWatch :=
  if w.contains call base then w
  else ⟨w.byBase.push base call, w.registrations.push call base⟩

/-- Drop all registrations of a call.  The bases it was registered with keep their entries. -/
def removeCall (w : SubclassWatch) (call : CallId) : SubclassWatch where
  byBase := (w.bases call).foldl (fun m base => m.retain base (· != call)) w.byBase
  registrations := w.registrations.erase call

/-- Add calls to those found so far, each of them once. -/
def addCalls (found : List CallId) (calls : List CallId) : List CallId :=
  calls.foldl (fun found call => if found.contains call then found else found ++ [call]) found

/-- The calls that watch one of some bases. -/
def observersOfAny (w : SubclassWatch) (bases : List TypeId) : List CallId :=
  bases.foldl (fun found base => addCalls found (w.observers base)) []

end SubclassWatch

end Callsite
