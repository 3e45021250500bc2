/-!
# Visible text

Messages repeat what the user wrote, but without what would control a terminal: escape
sequences are left out, and so are all control characters but blanks and line ends.
-/

namespace Callsite.Cli

/-- Where in an escape sequence a text is. -/
inductive Control where
  | ground
  | escape
  /-- In a short sequence, which ends with its first letter or digit. -/
  | short
  /-- In a sequence with parameters, which ends with its first letter. -/
  | parameters
  | title
  | string
  deriving DecidableEq, Repr

namespace Control

def isSpace (c : Char) : Bool :=
  c == '\t' || c == '\n' || c == '\x0c' || c == '\r'

/-- Where a text is after a character; nothing when it stays where it is. -/
def next? (s : Control) (c : Char) : Option Control :=
  let n := c.toNat
  if n = 0x18 ∨ n = 0x1a then some .ground
  else if n = 0x1b then some .escape
  else
    match s with
    | .ground => if 0x80 ≤ n then some .ground else none
    | .escape =>
      if c = '[' then some .parameters
      else if c = ']' then some .title
      else if c = 'P' ∨ c = 'X' ∨ c = '^' ∨ c = '_' then some .string
      else if 0x20 ≤ n ∧ n < 0x30 then some .short
      else if 0x30 ≤ n ∧ n < 0x7f then some .ground
      else none
    | .short => if 0x30 ≤ n ∧ n < 0x7f then some .ground else none
    | .parameters => if 0x40 ≤ n ∧ n < 0x7f then some .ground else none
    | .title => if n = 0x07 then some .ground else none
    | .string => none

/-- Whether a character is shown. -/
def shows (s : Control) (c : Char) : Bool :=
  match s with
  | .ground => isSpace c || (0x20 ≤ c.toNat && c.toNat ≠ 0x7f)
  | .escape | .short | .parameters => isSpace c
  | .title | .string => false

end Control

/-- The characters that are shown.  Once one is shown, also inside a sequence, all are until the
next that is not; the flag says that this is so. -/
def visibleChars : Bool → Control → List Char → List Char
  | _, _, [] => []
  | true, s, c :: rest =>
    let s := (Control.ground.next? c).getD s
    if Control.ground.shows c then c :: visibleChars true s rest
    else visibleChars false ((s.next? c).getD s) rest
  | false, s, c :: rest =>
    let shown := s.shows c
    let s := (s.next? c).getD s
    if shown then c :: visibleChars true s rest else visibleChars false s rest

/-- A text without what controls a terminal. -/
def visible (text : String) : String :=
  String.ofList (visibleChars false .ground text.toList)

end Callsite.Cli
