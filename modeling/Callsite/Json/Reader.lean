import Callsite.Json.Value

/-!
# Reading JSON texts

A text is read from the front; a reader gives the value and what is left.  The
length of the text bounds the nesting of readers.
-/

namespace Callsite.Json.Reader

def isBlank (c : Char) : Bool :=
  c == ' ' || c == '\t' || c == '\n' || c == '\r'

def skip (cs : List Char) : List Char :=
  cs.dropWhile isBlank

/-- Read a fixed word. -/
def literal : List Char → List Char → Option (List Char)
  | [], cs => some cs
  | w :: word, c :: cs => if w = c then literal word cs else none
  | _ :: _, [] => none

/-! ## Strings -/

/-- A piece of a string: a character, or the sixteen bits of an escape. -/
inductive Piece where
  | char (c : Char)
  | unit (bits : Nat)

def hexDigit? (c : Char) : Option Nat :=
  if '0' ≤ c ∧ c ≤ '9' then some (c.toNat - '0'.toNat)
  else if 'a' ≤ c ∧ c ≤ 'f' then some (c.toNat - 'a'.toNat + 10)
  else if 'A' ≤ c ∧ c ≤ 'F' then some (c.toNat - 'A'.toNat + 10)
  else none

/-- The character that a letter behind a backslash stands for. -/
def escaped? : Char → Option Char
  | '"' => some '"'
  | '\\' => some '\\'
  | '/' => some '/'
  | 'b' => some '\x08'
  | 'f' => some '\x0c'
  | 'n' => some '\n'
  | 'r' => some '\r'
  | 't' => some '\t'
  | _ => none

/-- Read the pieces of a string up to its closing quote. -/
def pieces : List Piece → List Char → Option (List Piece × List Char)
  | found, '"' :: rest => some (found.reverse, rest)
  | found, '\\' :: 'u' :: a :: b :: c :: d :: rest => do
    let bits := ((← hexDigit? a) * 16 + (← hexDigit? b)) * 256 +
      ((← hexDigit? c) * 16 + (← hexDigit? d))
    pieces (.unit bits :: found) rest
  | found, '\\' :: c :: rest => do
    pieces (.char (← escaped? c) :: found) rest
  | found, c :: rest => if c.toNat < 32 then none else pieces (.char c :: found) rest
  | _, [] => none

/-- Put pieces together.  Two surrogates in the right order make one character; any other
surrogate makes none. -/
def joinPieces : List Char → List Piece → Option (List Char)
  | found, [] => some found.reverse
  | found, .char c :: rest => joinPieces (c :: found) rest
  | found, .unit high :: .unit low :: rest =>
    if 0xD800 ≤ high ∧ high < 0xDC00 then
      if 0xDC00 ≤ low ∧ low < 0xE000 then
        joinPieces (Char.ofNat (0x10000 + (high - 0xD800) * 0x400 + (low - 0xDC00)) :: found) rest
      else none
    else if 0xDC00 ≤ high ∧ high < 0xE000 then none
    else joinPieces (Char.ofNat high :: found) (.unit low :: rest)
  | found, .unit bits :: rest =>
    if 0xD800 ≤ bits ∧ bits < 0xE000 then none
    else joinPieces (Char.ofNat bits :: found) rest

/-- Read a string behind its opening quote; the text is missing when surrogates are unpaired. -/
def string (cs : List Char) : Option (Option String × List Char) := do
  let (found, rest) ← pieces [] cs
  pure ((joinPieces [] found).map String.ofList, rest)

/-! ## Numbers -/

def isDigit (c : Char) : Bool :=
  '0' ≤ c && c ≤ '9'

def digits (cs : List Char) : Option (List Char × List Char) :=
  match cs.takeWhile isDigit with
  | [] => none
  | found => some (found, cs.dropWhile isDigit)

def decimal (ds : List Char) : Nat :=
  ds.foldl (fun n d => n * 10 + (d.toNat - '0'.toNat)) 0

/-- Read the digits of an integer, of which only zero starts with a zero. -/
def whole : List Char → Option (List Char × List Char)
  | '0' :: rest => some (['0'], rest)
  | cs => digits cs

/-- Read the part of a number behind the point, if there is one. -/
def fraction : List Char → Option (List Char × List Char)
  | '.' :: rest => (digits rest).map fun (ds, rest) => ('.' :: ds, rest)
  | cs => some ([], cs)

def sign : List Char → List Char × List Char
  | '+' :: rest => (['+'], rest)
  | '-' :: rest => (['-'], rest)
  | cs => ([], cs)

/-- Read the exponent of a number, if there is one. -/
def exponent : List Char → Option (List Char × List Char)
  | c :: rest =>
    if c = 'e' ∨ c = 'E' then
      let (mark, rest) := sign rest
      (digits rest).map fun (ds, rest) => (c :: mark ++ ds, rest)
    else some ([], c :: rest)
  | [] => some ([], [])

/-- Read a number behind its sign; negative zero is no integer. -/
def unsigned (negative : Bool) (cs : List Char) : Option (Json × List Char) := do
  let (ds, rest) ← whole cs
  let (afterPoint, rest) ← fraction rest
  let (power, rest) ← exponent rest
  let n := decimal ds
  if afterPoint.isEmpty && power.isEmpty && !(negative && n == 0) then
    pure (.int (if negative then -(n : Int) else n), rest)
  else
    let mark := if negative then "-" else ""
    pure (.real (mark ++ String.ofList (ds ++ afterPoint ++ power)), rest)

def number : List Char → Option (Json × List Char)
  | '-' :: rest => unsigned true rest
  | cs => unsigned false cs

/-! ## Values -/

/-- The object of the given fields; a key that is no text garbles it. -/
def ofFields (fields : List (Option String × Json)) : Json :=
  match fields.mapM fun (key, value) => key.map (·, value) with
  | some fields => .obj fields
  | none => .garbled

mutual

/-- Read a value, with at most `fuel` steps of nesting. -/
def value : Nat → List Char → Option (Json × List Char)
  | 0, _ => none
  | fuel + 1, cs =>
    match skip cs with
    | 'n' :: rest => (literal ['u', 'l', 'l'] rest).map (.null, ·)
    | 't' :: rest => (literal ['r', 'u', 'e'] rest).map (.bool true, ·)
    | 'f' :: rest => (literal ['a', 'l', 's', 'e'] rest).map (.bool false, ·)
    | '"' :: rest => (string rest).map fun (s, rest) => ((s.map Json.text).getD .garbled, rest)
    | '[' :: rest =>
      match skip rest with
      | ']' :: rest => some (.arr [], rest)
      | rest => items fuel [] rest
    | '\x7b' :: rest =>
      match skip rest with
      | '\x7d' :: rest => some (.obj [], rest)
      | rest => fields fuel [] rest
    | cs => number cs

/-- Read the items of an array that are left. -/
def items : Nat → List Json → List Char → Option (Json × List Char)
  | 0, _, _ => none
  | fuel + 1, found, cs => do
    let (item, rest) ← value fuel cs
    match skip rest with
    | ',' :: rest => items fuel (item :: found) rest
    | ']' :: rest => some (.arr (item :: found).reverse, rest)
    | _ => none

/-- Read the fields of an object that are left. -/
def fields : Nat → List (Option String × Json) → List Char → Option (Json × List Char)
  | 0, _, _ => none
  | fuel + 1, found, cs =>
    match skip cs with
    | '"' :: rest => do
      let (key, rest) ← string rest
      match skip rest with
      | ':' :: rest =>
        let (item, rest) ← value fuel rest
        match skip rest with
        | ',' :: rest => fields fuel ((key, item) :: found) rest
        | '\x7d' :: rest => some (ofFields ((key, item) :: found).reverse, rest)
        | _ => none
      | _ => none
    | _ => none

end

end Reader

/-- The value that a whole text writes. -/
def read (text : String) : Option Json := do
  let cs := text.toList
  let (j, rest) ← Reader.value (2 * cs.length + 1) cs
  if (Reader.skip rest).isEmpty then some j else none

end Callsite.Json
