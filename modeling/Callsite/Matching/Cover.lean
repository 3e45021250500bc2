import Callsite.Types.Ancestry

/-!
# Covers

The arguments of a call have types that stand for several concrete ones.  A
cover records for which tuples of concrete argument types a method has been
found.
-/

namespace Callsite

/-- The concrete types an argument can have; a type without any stands for itself. -/
def TypeTable.choices (t : TypeTable) (type : TypeId) : List TypeId :=
  match t.concreteTypes type with
  | [] => [type]
  | types => types

/-- The tuples of concrete types of arguments, the first argument varying slowest. -/
def TypeTable.tuples (t : TypeTable) : List TypeId → List (List TypeId)
  | [] => [[]]
  | type :: rest => (t.choices type).flatMap fun choice => (t.tuples rest).map (choice :: ·)

/-- The tuples to be covered, and those that are. -/
structure Cover where
  all : List (List TypeId)
  covered : List (List TypeId)
  deriving Repr, Inhabited

namespace Cover

/-- A cover of the given argument types in which nothing is covered. -/
def ofArgs (t : TypeTable) (args : List TypeId) : Cover :=
  ⟨t.tuples args, []⟩

/-- Whether a tuple is to be covered and is not yet. -/
def isNew (c : Cover) (tuple : List TypeId) : Bool :=
  c.all.contains tuple && !c.covered.contains tuple

/-- Cover the tuples of the given argument types; the flag says whether one of them is new. -/
def add (c : Cover) (t : TypeTable) (args : List TypeId) : Cover × Bool :=
  let fresh := (t.tuples args).filter c.isNew
  ({ c with covered := c.covered ++ fresh }, !fresh.isEmpty)

/-- The tuples that are left. -/
def missing (c : Cover) : List (List TypeId) :=
  c.all.filter fun tuple => !c.covered.contains tuple

/-- Whether every tuple is covered. -/
def isComplete (c : Cover) : Bool :=
  c.all.all c.covered.contains

end Cover

end Callsite
