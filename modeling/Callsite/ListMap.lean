/-!
# Maps from keys to lists

A finite map that keeps a list of values under each key, in the order in which the
values were added.
-/

namespace Callsite

/-- Pairs of a key and its values; each key has one pair at most. -/
structure ListMap (κ α : Type) where
  entries : List (κ × List α)
  deriving DecidableEq, Repr

namespace ListMap

variable {κ α : Type} [BEq κ]

/-- The map without entries. -/
def empty : ListMap κ α := ⟨[]⟩

instance : Inhabited (ListMap κ α) := ⟨empty⟩

/-- The values under a key; there are none under a key without an entry. -/
def values (m : ListMap κ α) (key : κ) : List α :=
  (m.entries.lookup key).getD []

/-- Drop the entry of a key. -/
def erase (m : ListMap κ α) (key : κ) : ListMap κ α :=
  ⟨m.entries.filter fun entry => entry.1 != key⟩

/-- Add a value behind those under a key. -/
def push (m : ListMap κ α) (key : κ) (value : α) : ListMap κ α :=
  ⟨(key, m.values key ++ [value]) :: (m.erase key).entries⟩

/-- Keep the values under a key that pass a test; the entry stays, even if none does. -/
def retain (m : ListMap κ α) (key : κ) (test : α → Bool) : ListMap κ α :=
  ⟨m.entries.map fun entry =>
    (entry.1, if entry.1 == key then entry.2.filter test else entry.2)⟩

end ListMap

end Callsite
