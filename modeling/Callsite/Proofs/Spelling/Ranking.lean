import Callsite.Spelling
import Mathlib.Data.List.Dedup
import Mathlib.Data.List.Sort
import Mathlib.Data.Prod.Lex
import Mathlib.Data.String.Basic

/-!
# The ranking of suggestions

Valid names are ranked by their distance from the misspelled one, and alphabetically among equals.
No two names have the same rank, so the order in which the valid names are given, and how often
each of them is, does not show in the suggestions: a name that occurs again stands right beside
itself once the names are sorted.
-/

namespace Callsite.Spelling

variable {misspelled : String} {names : List String}

/-- The place of a name among the suggestions: the distance counts first, then the name. -/
def rank (misspelled name : String) : ℕ ×ₗ String :=
  toLex (distance misspelled name, name)

/-- A name differs from the misspelled one and is near enough to be suggested for it. -/
def IsClose (misspelled name : String) : Prop :=
  0 < distance misspelled name ∧ distance misspelled name ≤ threshold misspelled name

theorem rank_injective (misspelled : String) : Function.Injective (rank misspelled) :=
  fun _ _ h => congrArg (fun r => (ofLex r).2) h

namespace Candidate

def ofName (misspelled name : String) : Candidate :=
  ⟨Spelling.distance misspelled name, name⟩

theorem before_ofName (misspelled a b : String) :
    (ofName misspelled a).before (ofName misspelled b) = true ↔
      rank misspelled a ≤ rank misspelled b := by
  unfold ofName
  simp [before, rank, Prod.Lex.toLex_le_toLex]

theorem sort_map_ofName (misspelled : String) (names : List String) :
    sort (names.map (ofName misspelled)) =
      (names.insertionSort (rank misspelled · ≤ rank misspelled ·)).map (ofName misspelled) := by
  have hinsert : ∀ c cs, insert c cs = cs.orderedInsert (·.before · = true) c := by
    intro c cs
    induction cs with
    | nil => rfl
    | cons d cs ih => rw [insert, ih, List.orderedInsert_cons]
  have hsort : ∀ cs, sort cs = cs.insertionSort (·.before · = true) := by
    intro cs
    induction cs with
    | nil => rfl
    | cons c cs ih => rw [List.insertionSort_cons, ← ih, ← hinsert]; rfl
  rw [hsort]
  exact (List.map_insertionSort _ _ _ _ fun a _ b _ => (before_ofName misspelled a b).symm).symm

/-- In a sorted list the repetitions of a name are beside each other. -/
theorem dropRepeats_map_ofName
    (h : names.Pairwise (rank misspelled · ≤ rank misspelled ·)) :
    dropRepeats (names.map (ofName misspelled)) = names.dedup.map (ofName misspelled) := by
  induction names with
  | nil => rfl
  | cons a names ih =>
    obtain ⟨hfirst, hrest⟩ := List.pairwise_cons.1 h
    cases names with
    | nil => rfl
    | cons b names =>
      rw [List.map_cons, List.map_cons, dropRepeats, ← List.map_cons, ih hrest]
      split
      case isTrue heq =>
        obtain rfl : a = b := heq
        rw [List.dedup_cons_of_mem List.mem_cons_self]
      case isFalse hne =>
        -- An `a` further behind would stand between `b` and `a` in rank.
        have hnot : a ∉ b :: names := by
          intro hmem
          rcases List.mem_cons.1 hmem with rfl | hmem
          · exact hne rfl
          · have hle := (List.pairwise_cons.1 hrest).1 a hmem
            exact hne (rank_injective misspelled (le_antisymm (hfirst b List.mem_cons_self) hle))
        rw [List.dedup_cons_of_notMem hnot, List.map_cons]

end Candidate

/-- The close names among the valid ones, without repetitions and by their rank. -/
def ranking (misspelled : String) (valid : List String) : List String :=
  let close := valid.filter fun name =>
    0 < distance misspelled name && distance misspelled name ≤ threshold misspelled name
  (close.insertionSort (rank misspelled · ≤ rank misspelled ·)).dedup

theorem mem_ranking {valid : List String} {name : String} :
    name ∈ ranking misspelled valid ↔ name ∈ valid ∧ IsClose misspelled name := by
  simp [ranking, IsClose]

theorem pairwise_ranking (misspelled : String) (valid : List String) :
    (ranking misspelled valid).Pairwise (rank misspelled · < rank misspelled ·) := by
  have hsorted : (ranking misspelled valid).Pairwise (rank misspelled · ≤ rank misspelled ·) :=
    (List.pairwise_insertionSort _ _).sublist (List.dedup_sublist _)
  exact hsorted.imp₂ (fun a b hle hne => lt_of_le_of_ne hle fun h => hne (rank_injective _ h))
    (List.nodup_dedup _)

theorem suggestions_eq (h : 2 ≤ misspelled.length) (valid : List String) :
    suggestions misspelled valid = (ranking misspelled valid).take 3 := by
  have hclose : valid.filterMap (candidate? misspelled) = (valid.filter fun name =>
      0 < distance misspelled name && distance misspelled name ≤ threshold misspelled name).map
        (Candidate.ofName misspelled) := by
    rw [← List.filterMap_eq_map, List.filterMap_filter]
    rfl
  rw [suggestions, if_neg (Nat.not_lt.2 h), hclose, Candidate.sort_map_ofName]
  dsimp only
  rw [Candidate.dropRepeats_map_ofName (List.pairwise_insertionSort _ _), ← List.map_take,
    List.map_map]
  exact List.map_id _

/-- Names of less than two characters get no suggestions.  Others get the first three of the close
valid names by their rank; so only the set of the valid names counts. -/
theorem suggestions_first_ranked (misspelled : String) (valid : List String) :
    (misspelled.length < 2 → suggestions misspelled valid = []) ∧
    (2 ≤ misspelled.length → ∃ ranked : List String,
      ranked.Pairwise (rank misspelled · < rank misspelled ·) ∧
      (∀ name, name ∈ ranked ↔ name ∈ valid ∧ IsClose misspelled name) ∧
      suggestions misspelled valid = ranked.take 3) ∧
    ∀ others : List String, (∀ name, name ∈ others ↔ name ∈ valid) →
      suggestions misspelled others = suggestions misspelled valid := by
  have hshort : ∀ names, misspelled.length < 2 → suggestions misspelled names = [] :=
    fun names h => if_pos h
  refine ⟨hshort valid, fun h => ⟨_, pairwise_ranking misspelled valid, fun _ => mem_ranking,
    suggestions_eq h valid⟩, fun others hsame => ?_⟩
  rcases Nat.lt_or_ge misspelled.length 2 with h | h
  · rw [hshort others h, hshort valid h]
  · -- Both rankings list the same names in strictly rising order.
    have hmem : ∀ name, name ∈ ranking misspelled others ↔ name ∈ ranking misspelled valid := by
      intro name
      rw [mem_ranking, mem_ranking, hsame]
    have : Std.Irrefl (rank misspelled · < rank misspelled ·) := ⟨fun _ => lt_irrefl _⟩
    have : Std.Antisymm (rank misspelled · < rank misspelled ·) :=
      ⟨fun _ _ h h' => absurd h' (lt_asymm h)⟩
    rw [suggestions_eq h, suggestions_eq h,
      (pairwise_ranking misspelled others).eq_of_mem_iff (pairwise_ranking misspelled valid) hmem]

theorem suggestions_first_ranked_cocco :
    suggestions "x" ["y"] = [] ∧
    (∃ ranked : List String, ranked.Pairwise (rank "cocco" · < rank "cocco" ·) ∧
      (∀ name, name ∈ ranked ↔
        name ∈ ["coco", "cocoa", "coca", "coco"] ∧ IsClose "cocco" name) ∧
      ["coco", "coca", "cocoa"] = ranked.take 3) ∧
    suggestions "cocco" ["coca", "cocoa", "coco"] = ["coco", "coca", "cocoa"] :=
  ⟨(suggestions_first_ranked "x" ["y"]).1 (by decide),
    (suggestions_first_ranked "cocco" ["coco", "cocoa", "coca", "coco"]).2.1 (by decide),
    (suggestions_first_ranked "cocco" ["coco", "cocoa", "coca", "coco"]).2.2
      ["coca", "cocoa", "coco"] (fun name => by grind)⟩

end Callsite.Spelling
