import Callsite.Proofs.Check.Independence
import Callsite.Proofs.Engine.Walk

/-!
# What a check leaves behind

A check gives the counters of depth back as it found them, whether it succeeds or fails, and never
raises them beyond the limits.  The cache is left clean by a check that succeeds only.  A check that
fails leaves the instances whose bodies it was in, at most one for every frame of the failure, and
later checks are answered with them although their bodies were rejected.
-/

namespace Callsite.Session

open Written

theorem check_keeps (s : Session) (program : Program) :
    s.KeepsBy (Infer.checkWith (.ofFuel Engine.fuelSupply) program s) :=
  (Infer.checkWith_follows (v := .raised 0 0) s).2

theorem exists_keeps_check (s : Session) (program : Program) :
    ∃ left, s.Keeps (s.check program).2 left := by
  have h := s.check_keeps program
  rw [check]
  cases hrun : Infer.checkWith (.ofFuel Engine.fuelSupply) program s with
  | ok nodes s' => exact ⟨[], by rwa [hrun] at h⟩
  | error halt s' =>
    rw [hrun] at h
    obtain ⟨left, hleft, -⟩ := h
    exact ⟨left, hleft⟩

/-! ## Depth -/

/-- Between checks both counters stand at zero, and they were never beyond the limits. -/
theorem Reached.depths {options : InferenceOptions} {s : Session} (h : Reached options s) :
    (s.options = options ∧ s.instantiationDepth = 0 ∧ s.propagationDepth = 0) ∧
      s.deepestBody ≤ options.maxInstantiationDepth ∧
      s.deepestWave ≤ options.maxPropagationDepth + 1 := by
  induction h with
  | start => exact ⟨⟨rfl, rfl, rfl⟩, Nat.zero_le _, Nat.zero_le _⟩
  | @check s program _ ih =>
    obtain ⟨⟨hoptions, hbodies, hwaves⟩, hbody, hwave⟩ := ih
    obtain ⟨left, hkeeps⟩ := s.exists_keeps_check program
    have hbody' := hkeeps.deepestBody
    have hwave' := hkeeps.deepestWave
    rw [hoptions] at hbody' hwave'
    refine ⟨⟨hkeeps.options.trans hoptions, hkeeps.instantiationDepth.trans hbodies,
      hkeeps.propagationDepth.trans hwaves⟩, ?_, ?_⟩ <;> omega

/-- Depth is accounted for on every path.  After a check of any program on any session, with a
result or with any failure, both counters have the values that they had before; and all through the
checks that lead to a session, and the check that follows, they stay within the limits. -/
theorem check_balances_depth (s : Session) (program : Program) :
    ((s.check program).2.instantiationDepth = s.instantiationDepth ∧
      (s.check program).2.propagationDepth = s.propagationDepth) ∧
    ∀ options, Reached options s →
      (s.check program).2.deepestBody ≤ options.maxInstantiationDepth ∧
      (s.check program).2.deepestWave ≤ options.maxPropagationDepth + 1 := by
  obtain ⟨left, hkeeps⟩ := s.exists_keeps_check program
  exact ⟨⟨hkeeps.instantiationDepth, hkeeps.propagationDepth⟩,
    fun options hs => (hs.check program).depths.2⟩

/-- Methods that call each other are checked within limits of one. -/
theorem check_balances_depth_nesting :
    ((start ⟨1, 1, true, true⟩).check nesting).2.instantiationDepth = 0 ∧
      ((start ⟨1, 1, true, true⟩).check nesting).2.deepestBody ≤ 1 := by
  have h := check_balances_depth (start ⟨1, 1, true, true⟩) nesting
  exact ⟨h.1.1, (h.2 _ .start).1⟩

/-! ## The cache -/

/-- A check that succeeds leaves no entry of the cache unfinished that was not unfinished before,
and a check that fails leaves at most one for every frame of its failure. -/
theorem check_unfinished_le_frames (program : Program) :
    (∀ options entry, ¬(start options).Unfinished entry) ∧
    (∀ s nodes s', check s program = (.ok nodes, s') →
      ∀ entry, s'.Unfinished entry → s.Unfinished entry) ∧
    ∀ s e s', check s program = (.error (.failed e), s') →
      ∃ left : List (InstanceKey × InstanceId), left.length ≤ e.frames.length ∧
        ∀ entry, s'.Unfinished entry → s.Unfinished entry ∨ entry ∈ left := by
  refine ⟨fun options entry h => absurd h.1 List.not_mem_nil, fun s nodes s' hrun entry => ?_,
    fun s e s' hrun => ?_⟩
  all_goals
    have h := s.check_keeps program
    rw [check] at hrun
    cases hend : Infer.checkWith (.ofFuel Engine.fuelSupply) program s with
    | ok _ _ => ?_
    | error _ _ => ?_
  all_goals
    rw [hend] at h hrun
    cases hrun
  · exact fun hentry => (h.unfinished entry hentry).resolve_right List.not_mem_nil
  · obtain ⟨left, hleft, hlength⟩ := h
    exact ⟨left, hlength e rfl, hleft.unfinished⟩

/-- A method whose body is rejected, and a call of it. -/
def rejected : Program :=
  program [methodDecl "foo" [] (send (int 1) "bar" []), ask "foo" []]

def retried : Program :=
  program [ask "foo" []]

/-- What the checks of the two programs, one after the other, give and leave. -/
theorem rejected_retried :
    (match ((start default).check rejected).1 with
      | .error (.failed e) => e.frames.length
      | _ => 0) = 1 ∧
    (((start default).check rejected).2.check retried).1.isOk = true ∧
    (((start default).check rejected).2.check retried).2.cache.entries.any
      (fun entry => (((start default).check rejected).2.check retried).2.Unfinished entry) =
        true := by
  decide +kernel

/-- The failure has one frame, and one entry is left. -/
theorem check_unfinished_le_frames_rejected :
    ∃ e s, check (start default) rejected = (.error (.failed e), s) ∧ e.frames.length = 1 ∧
      ∃ left : List (InstanceKey × InstanceId), left.length ≤ 1 ∧
        ∀ entry, s.Unfinished entry → entry ∈ left := by
  have hframes := rejected_retried.1
  obtain ⟨hstart, -, hfails⟩ := check_unfinished_le_frames rejected
  generalize hrun : check (start default) rejected = r at hframes
  obtain ⟨(e | _) | nodes, s⟩ := r
  all_goals simp at hframes
  obtain ⟨left, hlength, hleft⟩ := hfails _ e s hrun
  exact ⟨e, s, rfl, hframes, left, hframes ▸ hlength, fun entry hentry =>
    (hleft entry hentry).resolve_left (hstart default entry)⟩

/-- After the failure the same call succeeds, answered with the entry that was left, whose body was
never looked at to the end. -/
theorem check_reuses_rejected :
    ((start default).check rejected).1.isOk = false ∧
      (((start default).check rejected).2.check retried).1.isOk = true ∧
      ∃ entry, (((start default).check rejected).2.check retried).2.Unfinished entry := by
  obtain ⟨hframes, hok, hentry⟩ := rejected_retried
  obtain ⟨entry, -, hentry⟩ := List.any_eq_true.1 hentry
  refine ⟨?_, hok, entry, of_decide_eq_true hentry⟩
  generalize check (start default) rejected = r at hframes ⊢
  obtain ⟨_ | nodes, s⟩ := r
  · rfl
  · simp at hframes

end Callsite.Session
