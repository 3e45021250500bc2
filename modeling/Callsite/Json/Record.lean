import Callsite.Json.Value

/-!
# Records and variants in JSON

A record is an object with named fields, or an array of its fields in order.
Fields that a record does not know are skipped, but a known one may not be
repeated.  A variant is an object with its tag as the only key, or the bare tag
when nothing belongs to it.
-/

namespace Callsite.Json

/-- The fields of a record. -/
structure Record where
  fields : List (String × Json)
  /-- Whether the fields were written in order, without names. -/
  positional : Bool

/-- A record that names its fields. -/
def named? (names : List String) (j : Json) : Option Record :=
  match j with
  | .obj fields =>
    if names.all fun name => fields.countP (·.1 == name) ≤ 1 then some ⟨fields, false⟩ else none
  | _ => none

/-- A record in either form. -/
def record? (names : List String) (j : Json) : Option Record :=
  match j with
  | .arr items => if items.length ≤ names.length then some ⟨names.zip items, true⟩ else none
  | other => named? names other

namespace Record

variable {α : Type}

def get? (r : Record) (name : String) : Option Json :=
  r.fields.lookup name

/-- A field that has to be there. -/
def required (r : Record) (name : String) (decode : Json → Option α) : Option α :=
  (r.get? name).bind decode

/-- A field that may be null, or left out where fields are named. -/
def optional (r : Record) (name : String) (decode : Json → Option α) : Option (Option α) :=
  match r.get? name with
  | some j => nullable decode j
  | none => if r.positional then none else some none

/-- A field that may be left out. -/
def defaulted (r : Record) (name : String) (decode : Json → Option α) (default : α) : Option α :=
  match r.get? name with
  | some j => decode j
  | none => some default

end Record

end Callsite.Json
