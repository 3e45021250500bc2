/-!
# Characters and strings of TOML

The smallest parts of a TOML text: blanks, comments and line ends, and the four kinds
of strings.  A reader takes the characters from where it stands and returns what it
read with the characters behind it.
-/

namespace Callsite.Toml.Reader

/-! ## Blanks, comments and line ends -/

def isBlank (c : Char) : Bool :=
  c == ' ' || c == '\t'

def skip (cs : List Char) : List Char :=
  cs.dropWhile isBlank

/-- The characters that a string or a comment may hold. -/
def isPrintable (c : Char) : Bool :=
  c == '\t' || (32 ≤ c.toNat && c.toNat ≠ 127)

/-- Read the end of a line: a line feed, which may follow a carriage return. -/
def newline : List Char → Option (List Char)
  | '\n' :: rest => some rest
  | '\r' :: '\n' :: rest => some rest
  | _ => none

def skipNewline (cs : List Char) : List Char :=
  (newline cs).getD cs

def skipComment : List Char → List Char
  | '#' :: rest => rest.dropWhile isPrintable
  | cs => cs

/-- Read the rest of a line that may hold blanks and a comment only.  The last line of a text
needs no line feed. -/
def lineEnd (cs : List Char) : Option (List Char) :=
  match skipComment (skip cs) with
  | [] => some []
  | rest => newline rest

def skipLines : List Char → List Char
  | ' ' :: rest => skipLines rest
  | '\t' :: rest => skipLines rest
  | '\n' :: rest => skipLines rest
  | '\r' :: '\n' :: rest => skipLines rest
  | cs => cs

/-- Skip blanks, line ends and comments; the flag says that a comment has begun. -/
def skipGap : Bool → List Char → List Char
  | _, '\n' :: rest => skipGap false rest
  | _, '\r' :: '\n' :: rest => skipGap false rest
  | true, c :: rest => if isPrintable c then skipGap true rest else c :: rest
  | false, '#' :: rest => skipGap true rest
  | false, c :: rest => if isBlank c then skipGap false rest else c :: rest
  | _, [] => []

/-! ## Strings on one line -/

def hexDigit? (c : Char) : Option Nat :=
  if '0' ≤ c ∧ c ≤ '9' then some (c.toNat - '0'.toNat)
  else if 'a' ≤ c ∧ c ≤ 'f' then some (c.toNat - 'a'.toNat + 10)
  else if 'A' ≤ c ∧ c ≤ 'F' then some (c.toNat - 'A'.toNat + 10)
  else none

/-- The character of a number in hexadecimal digits. -/
def codePoint? (ds : List Char) : Option Char := do
  let n := (← ds.mapM hexDigit?).foldl (fun n d => n * 16 + d) 0
  if n < 0xD800 ∨ (0xDFFF < n ∧ n < 0x110000) then some (Char.ofNat n) else none

/-- The character that a letter behind a backslash stands for. -/
def escaped? : Char → Option Char
  | '"' => some '"'
  | '\\' => some '\\'
  | 'b' => some '\x08'
  | 'f' => some '\x0c'
  | 'n' => some '\n'
  | 'r' => some '\r'
  | 't' => some '\t'
  | _ => none

/-- Read an escape behind its backslash. -/
def escape : List Char → Option (Char × List Char)
  | 'u' :: a :: b :: c :: d :: rest => (codePoint? [a, b, c, d]).map (·, rest)
  | 'U' :: a :: b :: c :: d :: e :: f :: g :: h :: rest =>
    (codePoint? [a, b, c, d, e, f, g, h]).map (·, rest)
  | c :: rest => (escaped? c).map (·, rest)
  | [] => none

/-- Read a string with escapes behind its opening quote. -/
def basic : List Char → List Char → Option (String × List Char)
  | found, '"' :: rest => some (String.ofList found.reverse, rest)
  | found, '\\' :: 'u' :: a :: b :: c :: d :: rest => do
    basic ((← codePoint? [a, b, c, d]) :: found) rest
  | found, '\\' :: 'U' :: a :: b :: c :: d :: e :: f :: g :: h :: rest => do
    basic ((← codePoint? [a, b, c, d, e, f, g, h]) :: found) rest
  | found, '\\' :: c :: rest => do basic ((← escaped? c) :: found) rest
  | found, c :: rest => if isPrintable c then basic (c :: found) rest else none
  | _, [] => none

/-- Read a string without escapes behind its opening quote. -/
def verbatim : List Char → List Char → Option (String × List Char)
  | found, '\'' :: rest => some (String.ofList found.reverse, rest)
  | found, c :: rest => if isPrintable c then verbatim (c :: found) rest else none
  | _, [] => none

/-! ## Strings over several lines

Three quotes open and close such a string.  One or two quotes may stand inside, also
right before the end.  A backslash at the end of a line joins it with the next text. -/

/-- Read the end of a string over several lines: three of its quotes, and up to two before
them that belong to the string. -/
def closing (quote : Char) (cs : List Char) : Option (List Char × List Char) :=
  let run := (cs.takeWhile (· == quote)).length
  if run < 3 then none
  else
    let inside := min (run - 3) 2
    some (List.replicate inside quote, cs.drop (inside + 3))

/-- Read a string with escapes over several lines, of at most `fuel` characters. -/
def longBasic : Nat → List Char → List Char → Option (String × List Char)
  | 0, _, _ => none
  | fuel + 1, found, cs =>
    match closing '"' cs with
    | some (quotes, rest) => some (String.ofList (quotes ++ found).reverse, rest)
    | none =>
      match cs with
      | '\\' :: rest =>
        match newline (skip rest) with
        | some rest => longBasic fuel found (skipLines rest)
        | none => do
          let (c, rest) ← escape rest
          longBasic fuel (c :: found) rest
      | c :: rest =>
        if isPrintable c then longBasic fuel (c :: found) rest
        else do longBasic fuel ('\n' :: found) (← newline cs)
      | [] => none

/-- Read a string without escapes over several lines, of at most `fuel` characters. -/
def longVerbatim : Nat → List Char → List Char → Option (String × List Char)
  | 0, _, _ => none
  | fuel + 1, found, cs =>
    match closing '\'' cs with
    | some (quotes, rest) => some (String.ofList (quotes ++ found).reverse, rest)
    | none =>
      match cs with
      | c :: rest =>
        if isPrintable c then longVerbatim fuel (c :: found) rest
        else do longVerbatim fuel ('\n' :: found) (← newline cs)
      | [] => none

/-- Read a string of any kind. -/
def string : List Char → Option (String × List Char)
  | '"' :: '"' :: '"' :: rest => longBasic (rest.length + 1) [] (skipNewline rest)
  | '\'' :: '\'' :: '\'' :: rest => longVerbatim (rest.length + 1) [] (skipNewline rest)
  | '"' :: rest => basic [] rest
  | '\'' :: rest => verbatim [] rest
  | _ => none

end Callsite.Toml.Reader
