import Callsite.Proofs.Matching.Dispatch

/-!
# Greedy covers

The search for overloads looks at the candidates one after the other, stops when all tuples of
argument types are covered and skips what adds nothing.  It finds the same as if all candidates
were matched: a match is kept if it covers a tuple that none before it covers, and the tuples that
are left are those that none covers.
-/

namespace Callsite

theorem Cover.missing_eq_nil_iff {c : Cover} : c.missing = [] ↔ c.isComplete = true := by
  simp [missing, isComplete]

namespace TypeTable

theorem choices_ne_nil (t : TypeTable) (type : TypeId) : t.choices type ≠ [] := by
  unfold choices
  split
  · simp
  · assumption

theorem tuples_ne_nil (t : TypeTable) (args : List TypeId) : t.tuples args ≠ [] := by
  induction args with
  | nil => simp [tuples]
  | cons arg args ih =>
    obtain ⟨choice, hchoice⟩ := List.exists_mem_of_ne_nil _ (t.choices_ne_nil arg)
    obtain ⟨tuple, htuple⟩ := List.exists_mem_of_ne_nil _ ih
    exact List.ne_nil_of_mem
      (List.mem_flatMap.2 ⟨choice, hchoice, List.mem_map.2 ⟨tuple, htuple, rfl⟩⟩)

variable {tuple : List TypeId} {cover : Cover} {all : List (List TypeId)}

/-- One concrete type for each type, where a type without any stands for itself. -/
def IsPick (t : TypeTable) (types tuple : List TypeId) : Prop :=
  List.Forall₂ (fun type c => c ∈ t.choices type) types tuple

instance (t : TypeTable) (types tuple : List TypeId) : Decidable (t.IsPick types tuple) :=
  decidable_of_iff _ mem_tuples

/-- Match every candidate in turn.  Each match comes with the table after it was found. -/
def matchAll (owner : TypeId) (args : List TypeId) :
    List MethodId → Build (List (Match × TypeTable))
  | [] => pure []
  | candidate :: rest => do
    match ← matchMethod candidate owner args with
    | none => matchAll owner args rest
    | some found =>
      let t ← get
      let others ← matchAll owner args rest
      pure ((found, t) :: others)

/-- Some match takes a tuple. -/
def Covers (found : List (Match × TypeTable)) (tuple : List TypeId) : Prop :=
  ∃ m ∈ found, m.2.IsPick m.1.args tuple

instance (found : List (Match × TypeTable)) (tuple : List TypeId) :
    Decidable (Covers found tuple) :=
  inferInstanceAs (Decidable (∃ m ∈ found, m.2.IsPick m.1.args tuple))

/-- The matches that take one of the tuples `all` which no match before them takes. -/
def greedy (all : List (List TypeId)) :
    List (Match × TypeTable) → List (Match × TypeTable) → List Match
  | _, [] => []
  | before, m :: rest =>
    let later := greedy all (before ++ [m]) rest
    if ∃ tuple ∈ all, ¬ Covers before tuple ∧ m.2.IsPick m.1.args tuple then m.1 :: later else later

variable {before found : List (Match × TypeTable)}

theorem covers_append :
    Covers (before ++ found) tuple ↔ Covers before tuple ∨ Covers found tuple := by
  simp only [Covers, List.mem_append, or_and_right, exists_or]

theorem covers_singleton {m : Match × TypeTable} :
    Covers [m] tuple ↔ m.2.IsPick m.1.args tuple := by
  simp [Covers]

theorem greedy_of_covered (h : ∀ tuple ∈ all, Covers before tuple) :
    greedy all before found = [] := by
  induction found generalizing before with
  | nil => rfl
  | cons m rest ih =>
    rw [greedy, if_neg fun ⟨tuple, hmem, hnew, _⟩ => hnew (h tuple hmem)]
    exact ih fun tuple hmem => covers_append.2 (Or.inl (h tuple hmem))

/-- Where nothing is kept nothing new is covered. -/
theorem covers_of_greedy_eq_nil (hnil : greedy all before found = []) (hmem : tuple ∈ all)
    (h : Covers (before ++ found) tuple) : Covers before tuple := by
  induction found generalizing before with
  | nil => rwa [List.append_nil] at h
  | cons m rest ih =>
    rw [greedy] at hnil
    split at hnil
    · simp at hnil
    next hnothing =>
      rw [List.append_cons] at h
      rcases covers_append.1 (ih hnil h) with hbefore | htakes
      · exact hbefore
      · by_contra hnew
        exact hnothing ⟨tuple, hmem, hnew, covers_singleton.1 htakes⟩

/-- The search goes on from a cover of what the matches `before` take. -/
theorem collectMatches_greedy (owner : TypeId) (args : List TypeId) (candidates : List MethodId)
    (t : TypeTable)
    (hbefore : ∀ tuple ∈ cover.all, tuple ∈ cover.covered ↔ Covers before tuple) :
    let run := (collectMatches owner args candidates cover t).1
    let found := (matchAll owner args candidates t).1
    run.1 = greedy cover.all before found ∧ run.2.all = cover.all ∧
      ∀ tuple ∈ cover.all, tuple ∈ run.2.covered ↔ Covers (before ++ found) tuple := by
  induction candidates generalizing t cover before with
  | nil => exact ⟨rfl, rfl, fun tuple htuple => before.append_nil.symm ▸ hbefore tuple htuple⟩
  | cons candidate rest ih =>
    rw [collectMatches_cons]
    split
    next hcomplete =>
      -- All tuples are covered, so that no later candidate covers a new one.
      have hcovered : ∀ tuple ∈ cover.all, tuple ∈ cover.covered := by
        simpa [Cover.isComplete] using hcomplete
      have hall : ∀ tuple ∈ cover.all, Covers before tuple :=
        fun tuple htuple => (hbefore tuple htuple).1 (hcovered tuple htuple)
      refine ⟨(greedy_of_covered hall).symm, rfl, fun tuple htuple => ?_⟩
      exact iff_of_true (hcovered tuple htuple) (covers_append.2 (Or.inl (hall tuple htuple)))
    rw [matchAll, run_bind]
    rcases matchMethod candidate owner args t with ⟨_ | found, t1⟩
    · exact ih t1 hbefore
    have hisNew : ∀ tuple, cover.isNew tuple = true ↔
        tuple ∈ cover.all ∧ ¬ Covers before tuple := by
      intro tuple
      simp only [Cover.isNew, Bool.and_eq_true, Bool.not_eq_true', List.contains_eq_mem,
        decide_eq_false_iff_not, decide_eq_true_eq]
      exact and_congr_right fun htuple => not_congr (hbefore tuple htuple)
    have hadded : ∀ tuple ∈ (cover.add t1 found.args).1.all,
        tuple ∈ (cover.add t1 found.args).1.covered ↔
          Covers (before ++ [(found, t1)]) tuple := by
      intro tuple htuple
      rw [mem_add_covered, hisNew, hbefore tuple htuple, covers_append, covers_singleton,
        mem_tuples, ← IsPick]
      tauto
    have hadds : (cover.add t1 found.args).2 = true ↔
        ∃ tuple ∈ cover.all, ¬ Covers before tuple ∧ t1.IsPick found.args tuple := by
      have hfresh : (cover.add t1 found.args).2 = true ↔
          ∃ tuple ∈ t1.tuples found.args, cover.isNew tuple = true := by
        simp [Cover.add, List.filter_eq_nil_iff]
      simp only [hfresh, mem_tuples, hisNew, IsPick]
      exact exists_congr fun tuple => by tauto
    obtain ⟨hfound, hall, hcovered⟩ := ih t1 hadded
    refine ⟨?_, hall, fun tuple htuple => ?_⟩
    · simp only [hadds, hfound]
      rfl
    · rw [hcovered tuple htuple, List.append_assoc]
      rfl

section

variable (t : TypeTable) (owner : TypeId) (name : String) (args : List TypeId) (hasBlock : Bool)

theorem lookupMatches_covers :
    let run := (lookupMatches owner name args hasBlock t).1
    let found := (matchAll owner args (t.fittingMethods owner name args.length hasBlock) t).1
    run.found = greedy (t.tuples args) [] found ∧
      ∀ tuple, tuple ∈ run.missing ↔ t.IsPick args tuple ∧ ¬ Covers found tuple := by
  have hnone : ∀ tuple ∈ (Cover.ofArgs t args).all,
      tuple ∈ (Cover.ofArgs t args).covered ↔ Covers [] tuple := by
    simp [Cover.ofArgs, Covers]
  obtain ⟨hfound, hall, hcovered⟩ := collectMatches_greedy owner args
    (t.fittingMethods owner name args.length hasBlock) t hnone
  refine ⟨hfound, fun tuple => ?_⟩
  rw [IsPick, ← mem_tuples]
  show tuple ∈ Cover.missing _ ↔ _
  rw [Cover.missing, List.mem_filter, hall]
  refine and_congr_right fun htuple => ?_
  simpa using not_congr (hcovered tuple htuple)

/-- Only a search that leaves a tuple uncovered counts as empty. -/
theorem lookupMatches_isEmpty_iff :
    (lookupMatches owner name args hasBlock t).1.isEmpty = true ↔
      (lookupMatches owner name args hasBlock t).1.missing ≠ [] := by
  obtain ⟨hfound, hmissing⟩ := t.lookupMatches_covers owner name args hasBlock
  have hempty : (lookupMatches owner name args hasBlock t).1.isEmpty = true ↔
      (lookupMatches owner name args hasBlock t).1.found = [] ∨
        (lookupMatches owner name args hasBlock t).1.missing ≠ [] := by
    show (_ || !Cover.isComplete _) = true ↔ _ ∨ Cover.missing _ ≠ []
    rw [Ne, Cover.missing_eq_nil_iff]
    simp
  rw [hempty, or_iff_right_iff_imp]
  intro hnone hcovered
  rw [hnone] at hfound
  rw [hcovered] at hmissing
  obtain ⟨tuple, htuple⟩ := List.exists_mem_of_ne_nil _ (t.tuples_ne_nil args)
  refine List.not_mem_nil ((hmissing tuple).2 ⟨mem_tuples.1 htuple, fun hcovers => ?_⟩)
  have hnothing := covers_of_greedy_eq_nil hfound.symm htuple hcovers
  simp [Covers] at hnothing

/-- The search for overloads is greedy.  A tuple of concrete argument types is missing if no
candidate takes it, the matches are the candidates that take a tuple which none before them takes,
and the search comes out empty just if a tuple is missing. -/
theorem lookupMatches_greedy :
    let run := (lookupMatches owner name args hasBlock t).1
    let found := (matchAll owner args (t.fittingMethods owner name args.length hasBlock) t).1
    (∀ tuple, tuple ∈ run.missing ↔ t.IsPick args tuple ∧ ¬ Covers found tuple) ∧
      run.found = greedy (t.tuples args) [] found ∧ (run.isEmpty = true ↔ run.missing ≠ []) := by
  intro run found
  obtain ⟨hfound, hmissing⟩ := t.lookupMatches_covers owner name args hasBlock
  exact ⟨hmissing, hfound, t.lookupMatches_isEmpty_iff owner name args hasBlock⟩

end

end TypeTable

end Callsite
