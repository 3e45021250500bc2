/-!
# Maps keyed by names

A finite map from names to values, kept as a list of pairs in increasing order of
the names.  Scopes hold their variables in one, and matches their free type
variables.
-/

namespace Callsite

/-- Pairs of a name and a value, in increasing order of the names. -/
structure NameMap (α : Type) where
  entries : List (String × α)
  deriving Repr, DecidableEq

namespace NameMap

variable {α : Type}

def empty : NameMap α := ⟨[]⟩

instance : Inhabited (NameMap α) := ⟨empty⟩

def get? (m : NameMap α) (name : String) : Option α :=
  m.entries.lookup name

def contains (m : NameMap α) (name : String) : Bool :=
  (m.get? name).isSome

def isEmpty (m : NameMap α) : Bool :=
  m.entries.isEmpty

/-- Put a pair in its place, in front of the first greater name and instead of an equal one. -/
def insertEntry (name : String) (value : α) : List (String × α) → List (String × α)
  | [] => [(name, value)]
  | (key, old) :: rest =>
    if name = key then (name, value) :: rest
    else if name < key then (name, value) :: (key, old) :: rest
    else (key, old) :: insertEntry name value rest

def insert (m : NameMap α) (name : String) (value : α) : NameMap α :=
  ⟨insertEntry name value m.entries⟩

end NameMap

end Callsite
