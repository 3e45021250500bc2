/-!
# JSON values

The values of a JSON text.  Integers are kept apart from other numbers, of which
no program makes use, and objects keep their fields in order with all repetitions.
-/

namespace Callsite

/-- A JSON value. -/
inductive Json where
  | null
  | bool (value : Bool)
  /-- A number written as an integer, without fraction and exponent. -/
  | int (value : Int)
  | real (digits : String)
  | text (value : String)
  /-- A string, or an object with a key, that is no text because of an unpaired surrogate. -/
  | garbled
  | arr (items : List Json)
  | obj (fields : List (String × Json))
  deriving Repr, Inhabited

namespace Json

/-! ## Reading plain values -/

def bool? : Json → Option Bool
  | .bool b => some b
  | _ => none

def text? : Json → Option String
  | .text s => some s
  | _ => none

def int? : Json → Option Int
  | .int i => some i
  | _ => none

/-- A natural number below a bound. -/
def natBelow? (bound : Nat) (j : Json) : Option Nat := do
  let i ← j.int?
  if 0 ≤ i && i < bound then some i.toNat else none

def word64? (j : Json) : Option UInt64 :=
  (j.natBelow? UInt64.size).map UInt64.ofNat

def word32? (j : Json) : Option UInt32 :=
  (j.natBelow? UInt32.size).map UInt32.ofNat

def int64? (j : Json) : Option Int64 := do
  let i ← j.int?
  if -0x8000000000000000 ≤ i && i < 0x8000000000000000 then some (Int64.ofInt i) else none

/-- A text of a single character. -/
def char? : Json → Option Char
  | .text s =>
    match s.toList with
    | [c] => some c
    | _ => none
  | _ => none

/-- A value that may be null. -/
def nullable {α : Type} (decode : Json → Option α) : Json → Option (Option α)
  | .null => some none
  | j => (decode j).map some

/-! ## Repeated keys -/

mutual

/-- The value in which of repeated keys only the last is left. -/
def lastWins : Json → Json
  | .arr items => .arr (lastWinsItems items)
  | .obj fields => .obj (lastWinsFields fields)
  | other => other

def lastWinsItems : List Json → List Json
  | [] => []
  | j :: rest => lastWins j :: lastWinsItems rest

def lastWinsFields : List (String × Json) → List (String × Json)
  | [] => []
  | (key, j) :: rest =>
    if rest.any (·.1 == key) then lastWinsFields rest
    else (key, lastWins j) :: lastWinsFields rest

end

/-! ## Depth -/

mutual

/-- How many arrays and objects stand inside each other. -/
def depth : Json → Nat
  | .arr items => depthItems items + 1
  | .obj fields => depthFields fields + 1
  | _ => 0

def depthItems : List Json → Nat
  | [] => 0
  | j :: rest => max (depth j) (depthItems rest)

def depthFields : List (String × Json) → Nat
  | [] => 0
  | (_, j) :: rest => max (depth j) (depthFields rest)

end

end Json

end Callsite
