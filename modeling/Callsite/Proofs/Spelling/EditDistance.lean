import Callsite.Spelling
import Mathlib.Order.Bounds.Basic

/-!
# The distance of two words

The distance that the rows of the table compute is the least number of single-character edits
that turn one word into the other.  The rows hold the values of a recursion on the last
characters of both words.  As many edits as such a value are enough, and no fewer are: a single
edit changes the value by at most one.
-/

namespace Callsite.Spelling

/-! ## Edits -/

/-- One edit of a word: a character is inserted, deleted or replaced. -/
inductive Edit : List Char → List Char → Prop
  | insert (front back : List Char) (x : Char) : Edit (front ++ back) (front ++ x :: back)
  | delete (front back : List Char) (x : Char) : Edit (front ++ x :: back) (front ++ back)
  | replace (front back : List Char) (x y : Char) :
      Edit (front ++ x :: back) (front ++ y :: back)

/-- A number of edits, one after the other. -/
inductive Edits : Nat → List Char → List Char → Prop
  | none (a : List Char) : Edits 0 a a
  | step {n : Nat} {a b c : List Char} (first : Edit a b) (rest : Edits n b c) : Edits (n + 1) a c

variable {a b c : List Char} {n m : Nat}

theorem Edit.symm (h : Edit a b) : Edit b a := by
  cases h with
  | insert front back x => exact .delete front back x
  | delete front back x => exact .insert front back x
  | replace front back x y => exact .replace front back y x

theorem Edit.cons (x : Char) (h : Edit a b) : Edit (x :: a) (x :: b) := by
  cases h with
  | insert front back y => exact .insert (x :: front) back y
  | delete front back y => exact .delete (x :: front) back y
  | replace front back y z => exact .replace (x :: front) back y z

theorem Edit.reverse (h : Edit a b) : Edit a.reverse b.reverse := by
  cases h with
  | insert front back x => simpa using Edit.insert back.reverse front.reverse x
  | delete front back x => simpa using Edit.delete back.reverse front.reverse x
  | replace front back x y => simpa using Edit.replace back.reverse front.reverse x y

namespace Edits

theorem trans (h : Edits n a b) (h' : Edits m b c) : Edits (n + m) a c := by
  induction h with
  | none a => simpa using h'
  | step first _ ih => simpa [Nat.add_right_comm] using Edits.step first (ih h')

theorem symm (h : Edits n a b) : Edits n b a := by
  induction h with
  | none a => exact .none a
  | step first _ ih => exact ih.trans (.step first.symm (.none _))

theorem cons (x : Char) (h : Edits n a b) : Edits n (x :: a) (x :: b) := by
  induction h with
  | none a => exact .none _
  | step first _ ih => exact .step (first.cons x) ih

theorem reverse (h : Edits n a b) : Edits n a.reverse b.reverse := by
  induction h with
  | none a => exact .none _
  | step first _ ih => exact .step first.reverse ih

theorem zero_iff : Edits 0 a b ↔ a = b :=
  ⟨fun h => by cases h; rfl, fun h => h ▸ .none a⟩

end Edits

/-! ## The recursion -/

/-- The distance of two words, by their first characters. -/
def steps : List Char → List Char → Nat
  | [], b => b.length
  | a, [] => a.length
  | x :: a, y :: b =>
    min (min (steps a (y :: b) + 1) (steps (x :: a) b + 1))
      (if x = y then steps a b else steps a b + 1)

@[simp] theorem steps_nil (a : List Char) : steps a [] = a.length := by
  cases a <;> simp [steps]

theorem steps_cons_right_le (y : Char) (a b : List Char) : steps a (y :: b) ≤ steps a b + 1 := by
  cases a <;> simp [steps]

theorem steps_self (a : List Char) : steps a a = 0 := by
  induction a with
  | nil => simp
  | cons x a ih => simp [steps, ih]

theorem Edits.of_nil (b : List Char) : Edits b.length [] b := by
  induction b with
  | nil => exact .none []
  | cons y b ih => exact ih.trans (.step (.insert [] b y) (.none _))

/-- As many edits as the recursion says are enough. -/
theorem edits_steps (a b : List Char) : Edits (steps a b) a b := by
  have hmin : ∀ {n m a b}, Edits n a b → Edits m a b → Edits (min n m) a b := by
    intro n m a b h h'
    rw [Nat.min_def]
    split <;> assumption
  fun_induction steps a b with
  | case1 b => exact .of_nil b
  | case2 a => exact (Edits.of_nil a).symm
  | case3 x a y b ihdelete ihinsert ihkeep =>
    refine hmin (hmin (.step (.delete [] a x) ihdelete) ?_) ?_
    · exact ihinsert.trans (.step (.insert [] b y) (.none _))
    · split
      case isTrue heq => exact heq ▸ ihkeep.cons x
      case isFalse => exact .step (.replace [] a x y) (ihkeep.cons y)

/-- What two words have in front does not take them further apart from a third one. -/
theorem steps_append_le (front : List Char) (h : ∀ c, steps a c ≤ steps b c + 1) (c : List Char) :
    steps (front ++ a) c ≤ steps (front ++ b) c + 1 := by
  induction front generalizing c with
  | nil => exact h c
  | cons x front ih =>
    induction c with
    | nil => simpa using ih []
    | cons z c ihc =>
      have hdelete := ih (z :: c)
      have hkeep := ih c
      simp only [List.cons_append, steps] at ihc ⊢
      grind

/-- A single edit changes the recursion by at most one. -/
theorem Edit.steps_le (h : Edit a b) (c : List Char) : steps a c ≤ steps b c + 1 := by
  cases h with
  | insert front back x =>
    refine steps_append_le front (fun c => ?_) c
    induction c with
    | nil => simp; omega
    | cons z c ih =>
      have hinsert := steps_cons_right_le z back c
      simp only [steps]
      grind
  | delete front back x =>
    refine steps_append_le front (fun c => ?_) c
    cases c <;> simp [steps]
  | replace front back x y =>
    refine steps_append_le front (fun c => ?_) c
    induction c with
    | nil => simp
    | cons z c ih =>
      have hinsert := steps_cons_right_le z back c
      simp only [steps]
      grind

/-- No fewer edits than the recursion says are enough. -/
theorem Edits.steps_le (h : Edits n a b) : steps a b ≤ n := by
  induction h with
  | none a => exact (steps_self a).le
  | step first _ ih => exact (first.steps_le _).trans (Nat.succ_le_succ ih)

/-! ## The rows -/

/-- A row of the table, behind the prefix `q` of the second word: the distances of `p` from the
longer and longer prefixes.  Prefixes are read backwards. -/
def row (p : List Char) : List Char → List Char → List Nat
  | q, [] => [steps p q]
  | q, y :: word => steps p q :: row p (y :: q) word

theorem row_eq_cons (p q word : List Char) : row p q word = steps p q :: (row p q word).tail := by
  cases word <;> rfl

theorem firstRow_eq (word : List Char) : firstRow word = row [] [] word := by
  have h : ∀ q, List.range' q.length (word.length + 1) = row [] q word := by
    induction word with
    | nil => intro q; simp [row, steps]
    | cons y word ih => intro q; rw [List.length_cons, List.range'_succ, row, ← ih]; simp [steps]
  rw [firstRow, List.range_eq_range']
  exact h []

theorem rowFrom_eq (x : Char) (p q word : List Char) :
    rowFrom x (steps (x :: p) q) word (row p q word) = (row (x :: p) q word).tail := by
  induction word generalizing q with
  | nil => rfl
  | cons y word ih =>
    have hentry : steps (x :: p) (y :: q) = min (min (steps p (y :: q) + 1) (steps (x :: p) q + 1))
        (if x = y then steps p q else steps p q + 1) := by rw [steps]
    rw [row, row_eq_cons p (y :: q), rowFrom, ← hentry, ← row_eq_cons, ih, ← row_eq_cons]
    rfl

theorem nextRow_eq (x : Char) (p word : List Char) :
    nextRow word (row p [] word) x = row (x :: p) [] word := by
  have hfirst : (row p [] word).headD 0 + 1 = steps (x :: p) [] := by
    rw [row_eq_cons]
    simp
  rw [nextRow, hfirst, rowFrom_eq, ← row_eq_cons]

theorem foldl_nextRow (a p word : List Char) :
    a.foldl (nextRow word) (row p [] word) = row (a.reverse ++ p) [] word := by
  induction a generalizing p with
  | nil => rfl
  | cons x a ih => rw [List.foldl_cons, nextRow_eq, ih]; simp

theorem getLast?_row (p q word : List Char) :
    (row p q word).getLast? = some (steps p (word.reverse ++ q)) := by
  induction word generalizing q with
  | nil => rfl
  | cons y word ih => rw [row, row_eq_cons, List.getLast?_cons_cons, ← row_eq_cons, ih]; simp

/-- The words for which no table is filled have the distance that the table would give. -/
theorem charDistance_eq (a b : List Char) : charDistance a b = steps a.reverse b.reverse := by
  unfold charDistance
  split_ifs with hleft hright hsame
  · rw [List.isEmpty_iff.1 hleft]
    simp [steps]
  · rw [List.isEmpty_iff.1 hright]
    simp
  · rw [hsame, steps_self]
  · rw [firstRow_eq, foldl_nextRow, getLast?_row]
    simp

theorem charDistance_isLeast (a b : List Char) : IsLeast {n | Edits n a b} (charDistance a b) := by
  rw [charDistance_eq]
  refine ⟨?_, fun n hn => hn.reverse.steps_le⟩
  simpa using (edits_steps a.reverse b.reverse).reverse

/-- The distance of two words is the least number of edits that turn one into the other; so it is
a metric. -/
theorem distance_isLeast_edits (a b : String) :
    IsLeast {n | Edits n a.toList b.toList} (distance a b) ∧ distance a b = distance b a ∧
      (distance a b = 0 ↔ a = b) ∧ ∀ c, distance a c ≤ distance a b + distance b c := by
  have hleast := fun a b : String => charDistance_isLeast a.toList b.toList
  refine ⟨hleast a b, ?_, ⟨fun h => ?_, fun h => ?_⟩, fun c => ?_⟩
  · exact le_antisymm ((hleast a b).2 (hleast b a).1.symm) ((hleast b a).2 (hleast a b).1.symm)
  · have hedits : Edits (distance a b) a.toList b.toList := (hleast a b).1
    rw [h, Edits.zero_iff] at hedits
    exact String.toList_inj.1 hedits
  · exact Nat.le_zero.1 ((hleast a b).2 (Edits.zero_iff.2 (congrArg String.toList h)))
  · exact (hleast a c).2 ((hleast a b).1.trans (hleast b c).1)

end Callsite.Spelling
