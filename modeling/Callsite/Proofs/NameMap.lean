import Callsite.NameMap

/-!
# Maps from names

Binding a name changes the value of that name only.
-/

namespace Callsite.NameMap

variable {α : Type}

theorem get?_insert_self (m : NameMap α) (name : String) (value : α) :
    (m.insert name value).get? name = some value := by
  suffices h : ∀ entries : List (String × α),
      (insertEntry name value entries).lookup name = some value from h m.entries
  intro entries
  induction entries with
  | nil => simp [insertEntry]
  | cons first rest ih =>
    rw [insertEntry]
    split
    next => simp
    next hkey =>
      split
      next => simp
      next => rw [List.lookup_cons, beq_false_of_ne hkey, ih]

theorem get?_insert_of_ne {name other : String} (m : NameMap α) (value : α) (hne : other ≠ name) :
    (m.insert name value).get? other = m.get? other := by
  suffices h : ∀ entries : List (String × α),
      (insertEntry name value entries).lookup other = entries.lookup other from h m.entries
  intro entries
  induction entries with
  | nil => simp [insertEntry, List.lookup_cons, beq_false_of_ne hne]
  | cons first rest ih =>
    obtain ⟨key, old⟩ := first
    rw [insertEntry]
    split
    next hkey =>
      subst hkey
      simp [List.lookup_cons, beq_false_of_ne hne]
    next =>
      split
      next => simp [List.lookup_cons, beq_false_of_ne hne]
      next => rw [List.lookup_cons, List.lookup_cons, ih]

end Callsite.NameMap
