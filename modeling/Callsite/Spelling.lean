/-!
# Spelling suggestions

For a name that does not exist, the names that do and are spelled much like it.
Closeness is the edit distance: the least number of characters to insert, delete
or replace.
-/

namespace Callsite.Spelling

/-! ## Edit distance

The distances from the prefixes of one word to the prefixes of the other fill a
table, one row for each prefix of the first word.  A row follows from the row
before it. -/

/-- The entries of a row behind the one with value `left`, for the character `a` of the first
word, the remaining characters of the second word and the remaining entries of the row before. -/
def rowFrom (a : Char) (left : Nat) : List Char → List Nat → List Nat
  | b :: word, diagonal :: up :: before =>
    let replaced := if a = b then diagonal else diagonal + 1
    let entry := min (min (up + 1) (left + 1)) replaced
    entry :: rowFrom a entry word (up :: before)
  | _, _ => []

/-- The row behind another, for one more character of the first word. -/
def nextRow (word : List Char) (before : List Nat) (a : Char) : List Nat :=
  let first := before.headD 0 + 1
  first :: rowFrom a first word before

/-- The row of the empty prefix: every prefix of the second word is inserted whole. -/
def firstRow (word : List Char) : List Nat :=
  List.range (word.length + 1)

/-- The last entry of the last row.  No table is filled when a word is empty or when both are
the same. -/
def charDistance (a b : List Char) : Nat :=
  if a.isEmpty then b.length
  else if b.isEmpty then a.length
  else if a = b then 0
  else (a.foldl (nextRow b) (firstRow b)).getLast?.getD 0

def distance (a b : String) : Nat :=
  charDistance a.toList b.toList

/-! ## Suggestions -/

/-- The largest distance at which one name is suggested for the other.  It grows with the
longer of the two, and is one for names that differ much in length. -/
def threshold (a b : String) : Nat :=
  let longer := max a.length b.length
  let shorter := min a.length b.length
  if 2 < longer - shorter then 1
  else if longer ≤ 4 then 1
  else if longer ≤ 7 then 2
  else 3

/-- A name and its distance from the misspelled one. -/
structure Candidate where
  distance : Nat
  name : String
  deriving DecidableEq, Repr

namespace Candidate

/-- Nearer names come first, equally near ones in alphabetical order. -/
def before (a b : Candidate) : Bool :=
  a.distance < b.distance || (a.distance == b.distance && a.name ≤ b.name)

/-- Insert a candidate into a list in order. -/
def insert (c : Candidate) : List Candidate → List Candidate
  | [] => [c]
  | d :: rest => if c.before d then c :: d :: rest else d :: insert c rest

def sort (cs : List Candidate) : List Candidate :=
  cs.foldr insert []

/-- Drop a candidate before another one of the same name. -/
def dropRepeats : List Candidate → List Candidate
  | c :: d :: rest =>
    if c.name = d.name then dropRepeats (d :: rest) else c :: dropRepeats (d :: rest)
  | short => short

end Candidate

/-- A valid name as a candidate, when it differs from the misspelled name and is close enough. -/
def candidate? (misspelled name : String) : Option Candidate :=
  let d := distance misspelled name
  if 0 < d && d ≤ threshold misspelled name then some ⟨d, name⟩ else none

/-- At most three valid names close to a misspelled one, the best first.  Names of a single
character are not corrected. -/
def suggestions (misspelled : String) (valid : List String) : List String :=
  if misspelled.length < 2 then []
  else
    let close := Candidate.sort (valid.filterMap (candidate? misspelled))
    ((Candidate.dropRepeats close).take 3).map (·.name)

def help (name : String) : String :=
  "did you mean '" ++ name ++ "'?"

end Callsite.Spelling
