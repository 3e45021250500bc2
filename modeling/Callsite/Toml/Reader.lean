import Callsite.Toml.Scalar

/-!
# Reading TOML texts

A text consists of headers, keys with their values, and comments, each of which ends
its line.  How deep a text may nest is limited: neither a key of too many parts nor
a value with too many brackets inside each other is accepted.
-/

namespace Callsite.Toml.Reader

/-- How many parts a key, and how many brackets a value, must not reach. -/
def nestingLimit : Nat := 80

/-! ## Keys -/

/-- Read a key of one part. -/
def simpleKey : List Char → Option (String × List Char)
  | '"' :: rest => basic [] rest
  | '\'' :: rest => verbatim [] rest
  | cs =>
    match cs.takeWhile isBare with
    | [] => none
    | key => some (String.ofList key, cs.dropWhile isBare)

/-- Read a key of one or more parts with dots between them, of at most `limit` parts. -/
def dottedKey : Nat → List Char → Option (List String × List Char)
  | 0, _ => none
  | limit + 1, cs => do
    let (key, rest) ← simpleKey (skip cs)
    match skip rest with
    | '.' :: rest =>
      let (keys, rest) ← dottedKey limit rest
      pure (key :: keys, rest)
    | rest => pure ([key], rest)

/-- Read a key of any allowed length. -/
def key (cs : List Char) : Option (List String × List Char) :=
  dottedKey (nestingLimit - 1) cs

/-! ## Values -/

mutual

/-- Read a value, with at most `levels` more brackets inside each other. -/
def value : Nat → Nat → List Char → Option (Toml × List Char)
  | 0, _, _ => none
  | fuel + 1, levels, cs =>
    match cs, levels with
    | '[' :: _, 0 => none
    | '[' :: rest, levels + 1 => items fuel levels [] (skipGap false rest)
    | '\x7b' :: _, 0 => none
    | '\x7b' :: rest, levels + 1 =>
      match skip rest with
      | '\x7d' :: rest => some (.table .closed [], rest)
      | rest => fields fuel levels [] rest
    | cs, _ =>
      match cs with
      | '"' :: _ | '\'' :: _ => (string cs).map fun (s, rest) => (.text s, rest)
      | cs => scalar cs

/-- Read the items of an array that are left, and its end; a comma may stand before it. -/
def items : Nat → Nat → List Toml → List Char → Option (Toml × List Char)
  | 0, _, _, _ => none
  | _ + 1, _, found, ']' :: rest => some (.arr found.reverse, rest)
  | fuel + 1, levels, found, cs => do
    let (item, rest) ← value fuel levels cs
    match skipGap false rest with
    | ',' :: rest => items fuel levels (item :: found) (skipGap false rest)
    | ']' :: rest => some (.arr (item :: found).reverse, rest)
    | _ => none

/-- Read the entries of a table in braces that are left, and its end. -/
def fields : Nat → Nat → Entries → List Char → Option (Toml × List Char)
  | 0, _, _, _ => none
  | fuel + 1, levels, found, cs => do
    let (path, rest) ← key cs
    match rest with
    | '=' :: rest =>
      let (item, rest) ← value fuel levels (skip rest)
      let found ← put (path.getLast?.getD "") item path.dropLast found
      match skip rest with
      | ',' :: rest => fields fuel levels found rest
      | '\x7d' :: rest => some (.table .closed found, rest)
      | _ => none
    | _ => none

end

/-! ## Documents -/

/-- The table that entries are added to. -/
inductive Place where
  | top
  | table (path : List String)
  | item (path : List String)

/-- A document that is being read, and the table that is open. -/
structure Document where
  root : Entries
  place : Place
  entries : Entries

def Document.empty : Document := ⟨[], .top, []⟩

/-- Put the open table in its place. -/
def Document.close (d : Document) : Option Entries :=
  match d.place with
  | .top => some d.entries
  | .table path => closeTable path d.entries d.root
  | .item path => closeItem path d.entries d.root

/-- Read a header and open its table. -/
def header (d : Document) (cs : List Char) : Option (Document × List Char) := do
  let (path, rest) ← key cs
  match rest with
  | ']' :: rest =>
    let rest ← lineEnd rest
    let root ← d.close
    pure (⟨root, .table path, ← openTable path root⟩, rest)
  | _ => none

/-- Read a header in double brackets and open a table of its array. -/
def itemHeader (d : Document) (cs : List Char) : Option (Document × List Char) := do
  let (path, rest) ← key cs
  match rest with
  | ']' :: ']' :: rest =>
    let rest ← lineEnd rest
    let root ← d.close
    pure (⟨root, .item path, ← openItem path root⟩, rest)
  | _ => none

/-- Read a key and its value. -/
def entry (d : Document) (cs : List Char) : Option (Document × List Char) := do
  let (path, rest) ← key cs
  match rest with
  | '=' :: rest =>
    let (item, rest) ← value (2 * rest.length + 2) (nestingLimit - 1) (skip rest)
    let rest ← lineEnd rest
    let entries ← put (path.getLast?.getD "") item path.dropLast d.entries
    pure ({ d with entries }, rest)
  | _ => none

/-- Read one line. -/
def statement (d : Document) (cs : List Char) : Option (Document × List Char) :=
  match skip cs with
  | '[' :: '[' :: rest => itemHeader d rest
  | '[' :: rest => header d rest
  | rest =>
    match lineEnd rest with
    | some rest => some (d, rest)
    | none => entry d rest

/-- Read all lines. -/
def statements : Nat → Document → List Char → Option Document
  | _, d, [] => some d
  | 0, _, _ :: _ => none
  | fuel + 1, d, cs => do
    let (d, rest) ← statement d cs
    statements fuel d rest

/-- Skip the byte order mark. -/
def skipMark : List Char → List Char
  | '\ufeff' :: rest => rest
  | cs => cs

end Reader

/-- The tables that a text writes. -/
def read (text : String) : Option Entries := do
  let cs := Reader.skipMark text.toList
  (← Reader.statements cs.length .empty cs).close

end Callsite.Toml
