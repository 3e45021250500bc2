import Callsite.Toml.Table
import Callsite.Toml.Text

/-!
# Numbers, dates and truth values of TOML

Integers have 64 bits.  Of other numbers only the form is of interest, and that they
are not too large for a double; of dates and times, that they exist in the calendar.
-/

namespace Callsite.Toml.Reader

/-! ## Integers -/

def isDigit (c : Char) : Bool :=
  '0' ≤ c && c ≤ '9'

/-- Digits without the underscores between them. -/
def plainDigits (isDigit : Char → Bool) : List Char → Option (List Char)
  | [] => none
  | [d] => if isDigit d then some [d] else none
  | d :: '_' :: rest => if isDigit d then (plainDigits isDigit rest).map (d :: ·) else none
  | d :: rest => if isDigit d then (plainDigits isDigit rest).map (d :: ·) else none

def ofDigits (base : Nat) (ds : List Char) : Nat :=
  ds.foldl (fun n d => n * base + (hexDigit? d).getD 0) 0

/-- An unsigned decimal integer, of which only zero starts with a zero. -/
def unsigned? (cs : List Char) : Option Nat := do
  let ds ← plainDigits isDigit cs
  match ds with
  | '0' :: _ :: _ => none
  | _ => some (ofDigits 10 ds)

/-- An integer in another base than ten. -/
def based? (base : Nat) (cs : List Char) : Option Int := do
  let ds ← plainDigits (fun c => (hexDigit? c).any (· < base)) cs
  pure (ofDigits base ds)

/-- The integer that characters write. -/
def integer? : List Char → Option Int
  | '0' :: 'x' :: ds => based? 16 ds
  | '0' :: 'o' :: ds => based? 8 ds
  | '0' :: 'b' :: ds => based? 2 ds
  | '-' :: ds => (unsigned? ds).map fun n => -(n : Int)
  | '+' :: ds => (unsigned? ds).map fun n => (n : Int)
  | ds => (unsigned? ds).map fun n => (n : Int)

/-! ## Other numbers -/

def splitSign : List Char → Bool × List Char
  | '-' :: rest => (true, rest)
  | '+' :: rest => (false, rest)
  | cs => (false, cs)

/-- The integer that an exponent writes, and zero when there is none. -/
def exponent? : List Char → Option Int
  | [] => some 0
  | c :: rest =>
    if c = 'e' ∨ c = 'E' then do
      let (negative, digits) := splitSign rest
      let n := ofDigits 10 (← plainDigits isDigit digits)
      pure (if negative then -(n : Int) else n)
    else none

/-- A number that is not negative, as an integer times a power of ten. -/
structure Decimal where
  digits : Nat
  exponent : Int

/-- A number with a point or an exponent. -/
def decimal? (cs : List Char) : Option Decimal := do
  let inDigits := fun c => isDigit c || c == '_'
  let whole ← unsigned? (cs.takeWhile inDigits)
  match cs.dropWhile inDigits with
  | [] => none
  | '.' :: rest =>
    let places ← plainDigits isDigit (rest.takeWhile inDigits)
    let e ← exponent? (rest.dropWhile inDigits)
    pure ⟨ofDigits 10 (Nat.toDigits 10 whole ++ places), e - places.length⟩
  | rest => pure ⟨whole, ← exponent? rest⟩

/-- The least number that rounds to infinity. -/
def tooLarge : Nat := 0x3fffffffffffff <<< 970

/-- Whether a number rounds to infinity as a double.  The number of its digits before the point
decides this for all but those near the bound. -/
def Decimal.isInfinite (d : Decimal) : Bool :=
  if d.digits = 0 then false
  else
    let places := (Nat.toDigits 10 d.digits).length + d.exponent
    if places < 300 then false
    else if 320 < places then true
    else if 0 ≤ d.exponent then tooLarge ≤ d.digits * Nat.pow 10 d.exponent.toNat
    else tooLarge * Nat.pow 10 (-d.exponent).toNat ≤ d.digits

/-- Whether characters write a number that is no integer.  Infinity has a word of its own, and
no other positive number may stand for it. -/
def isReal (cs : List Char) : Bool :=
  let (negative, cs) := splitSign cs
  cs == ['i', 'n', 'f'] || cs == ['n', 'a', 'n'] ||
    match decimal? cs with
    | some d => negative || !d.isInfinite
    | none => false

/-! ## Dates and times -/

/-- Read a number of exactly `count` digits within bounds. -/
def digitsWithin (count low high : Nat) (cs : List Char) : Option (Nat × List Char) :=
  let ds := cs.take count
  let n := ofDigits 10 ds
  if ds.length = count ∧ ds.all isDigit ∧ low ≤ n ∧ n ≤ high then some (n, cs.drop count) else none

def char (c : Char) : List Char → Option (List Char)
  | d :: rest => if c = d then some rest else none
  | [] => none

/-- The number of days of a month. -/
def daysOf (year month : Nat) : Nat :=
  if month = 2 then
    if year % 4 = 0 ∧ (year % 100 ≠ 0 ∨ year % 400 = 0) then 29 else 28
  else if month = 4 ∨ month = 6 ∨ month = 9 ∨ month = 11 then 30
  else 31

/-- Read a date that exists. -/
def date (cs : List Char) : Option (List Char) := do
  let (year, rest) ← digitsWithin 4 0 9999 cs
  let (month, rest) ← digitsWithin 2 1 12 (← char '-' rest)
  let (_, rest) ← digitsWithin 2 1 (daysOf year month) (← char '-' rest)
  pure rest

def skipFraction : List Char → List Char
  | '.' :: d :: rest => if isDigit d then rest.dropWhile isDigit else '.' :: d :: rest
  | cs => cs

def time (cs : List Char) : Option (List Char) := do
  let (_, rest) ← digitsWithin 2 0 23 cs
  let (_, rest) ← digitsWithin 2 0 59 (← char ':' rest)
  let (_, rest) ← digitsWithin 2 0 60 (← char ':' rest)
  pure (skipFraction rest)

/-- Read how far a zone is from the standard time. -/
def zoneDistance (cs : List Char) : Option (List Char) := do
  let (_, rest) ← digitsWithin 2 0 23 cs
  let (_, rest) ← digitsWithin 2 0 59 (← char ':' rest)
  pure rest

def skipZone : List Char → List Char
  | 'Z' :: rest => rest
  | 'z' :: rest => rest
  | '+' :: rest => (zoneDistance rest).getD ('+' :: rest)
  | '-' :: rest => (zoneDistance rest).getD ('-' :: rest)
  | cs => cs

def skipTime (cs : List Char) : List Char :=
  match cs with
  | c :: rest =>
    if c = 'T' ∨ c = 't' ∨ c = ' ' then ((time rest).map skipZone).getD cs else cs
  | [] => []

/-- Read a date, a time or both. -/
def moment (cs : List Char) : Option (List Char) :=
  match date cs with
  | some rest => some (skipTime rest)
  | none => time cs

/-! ## Plain values -/

/-- The characters of keys without quotes. -/
def isBare (c : Char) : Bool :=
  ('a' ≤ c && c ≤ 'z') || ('A' ≤ c && c ≤ 'Z') || ('0' ≤ c && c ≤ '9') || c == '_' || c == '-'

def isPlain (c : Char) : Bool :=
  isBare c || c == '+' || c == '.'

/-- The value that characters write without quotes. -/
def plain? (cs : List Char) : Option Toml :=
  if cs = ['t', 'r', 'u', 'e'] then some (.bool true)
  else if cs = ['f', 'a', 'l', 's', 'e'] then some (.bool false)
  else
    match integer? cs with
    | some i => if -0x8000000000000000 ≤ i ∧ i < 0x8000000000000000 then some (.int i) else none
    | none => if isReal cs then some .real else none

/-- Read a value that is neither a string nor in brackets. -/
def scalar (cs : List Char) : Option (Toml × List Char) :=
  match moment cs with
  | some rest => some (.moment, rest)
  | none => (plain? (cs.takeWhile isPlain)).map (·, cs.dropWhile isPlain)

end Callsite.Toml.Reader
