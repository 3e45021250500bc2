/-!
# Likeness of words

How much two words are alike, as a number from zero to one: the characters that they
share count, if they stand at about the same place, and count less when they are out
of order.  The number says which word was perhaps meant by one that is not known.  It
is a double, and whether words are close is decided on the rounded number.
-/

namespace Callsite.Cli

namespace Likeness

/-- Mark the first unmarked occurrence of a character among the places from `low` up to, and
without, `high`; the places are counted from `place`. -/
def mark (c : Char) (low high : Nat) : Nat → List (Char × Bool) → Option (List (Char × Bool))
  | _, [] => none
  | place, (d, marked) :: rest =>
    if low ≤ place ∧ place < high ∧ d = c ∧ marked = false then some ((d, true) :: rest)
    else (mark c low high (place + 1) rest).map ((d, marked) :: ·)

/-- The characters of a word that find a partner at most `range` places away, and the other
word with the partners marked. -/
def share (range : Nat) : Nat → List Char → List (Char × Bool) → List Char × List (Char × Bool)
  | _, [], other => ([], other)
  | place, c :: word, other =>
    match mark c (place - range) (place + range + 1) 0 other with
    | some other =>
      let (shared, other) := share range (place + 1) word other
      (c :: shared, other)
    | none => share range (place + 1) word other

/-- At how many places two words differ. -/
def differences : List Char → List Char → Nat
  | a :: as, b :: bs => (if a = b then 0 else 1) + differences as bs
  | _, _ => 0

def ratio (part whole : Nat) : Float :=
  Float.ofNat part / Float.ofNat whole

end Likeness

/-- The likeness of two words: the mean of the shared part of the first, the shared part of the
second, and the part of what is shared that is in order. -/
def likeness (a b : String) : Float :=
  let range := max a.length b.length / 2 - 1
  let (shared, marked) := Likeness.share range 0 a.toList (b.toList.map (·, false))
  let partners := (marked.filter (·.2)).map (·.1)
  let m := shared.length
  let swaps := Likeness.differences shared partners / 2
  if a.isEmpty && b.isEmpty then 1
  else if m = 0 then 0
  else
    (Likeness.ratio m a.length + Likeness.ratio m b.length + Likeness.ratio (m - swaps) m) / 3

/-- A word with its likeness to another one. -/
structure Similar where
  likeness : Float
  word : String

/-- Insert a similar word into a list that ends with the most similar one, behind those that
are as similar. -/
def Similar.insert (s : Similar) : List Similar → List Similar
  | [] => [s]
  | t :: rest => if s.likeness < t.likeness then s :: t :: rest else t :: insert s rest

/-- The known words that are close to a given one, the most similar last. -/
def similarWords (word : String) (known : List String) : List String :=
  let close := known.filterMap fun name =>
    let l := likeness word name
    if 0.7 < l then some (Similar.mk l name) else none
  (close.foldl (fun found s => s.insert found) []).map (·.word)

/-- The known word that is most like a given one, if one is close. -/
def closest? (word : String) (known : List String) : Option String :=
  (similarWords word known).getLast?

end Callsite.Cli
