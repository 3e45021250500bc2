import Callsite.Inference.Instantiation
import Callsite.Proofs.Types.Building

/-!
# What runs keep

However a run ends, the two counters of depth are as they were, and they were never beyond their
limits in between.  A run that succeeds leaves every entry that it made in the cache with a body
that was looked at to the end.  A run that fails leaves at most one entry without such a body for
every frame of its failure: those of the instances whose bodies it was in.
-/

namespace Callsite

/-- An entry of the cache whose body was not looked at to the end.  External functions have no
body to look at. -/
def Session.Unfinished (s : Session) (entry : InstanceKey × InstanceId) : Prop :=
  entry ∈ s.cache.entries ∧ (s.instanceAt entry.2).kind ≠ .foreign ∧
    (s.instanceAt entry.2).body = none

instance (s : Session) (entry : InstanceKey × InstanceId) : Decidable (s.Unfinished entry) :=
  inferInstanceAs (Decidable (_ ∧ _ ∧ _))

/-- What most steps do not touch. -/
def Session.kept (s : Session) : InferenceOptions × Nat × Nat × Nat × Nat × Array Instance ×
    List (InstanceKey × InstanceId) :=
  (s.options, s.instantiationDepth, s.propagationDepth, s.deepestBody, s.deepestWave, s.instances,
    s.cache.entries)

/-- A run from one session to another keeps the counters of depth, stays within the limits, and
leaves no new entries unfinished but `left`. -/
structure Session.Keeps (s s' : Session) (left : List (InstanceKey × InstanceId)) : Prop where
  options : s'.options = s.options
  instantiationDepth : s'.instantiationDepth = s.instantiationDepth
  propagationDepth : s'.propagationDepth = s.propagationDepth
  deepestBody : s'.deepestBody ≤ max s.deepestBody s.options.maxInstantiationDepth
  deepestWave : s'.deepestWave
    ≤ max s.deepestWave (max s.options.maxPropagationDepth s.propagationDepth + 1)
  instances : s.instances.size ≤ s'.instances.size
  unfinished : ∀ entry, s'.Unfinished entry → s.Unfinished entry ∨ entry ∈ left

/-- How a run that ends in some way keeps the session that it started on. -/
def Session.KeepsBy {α : Type} (s : Session) : EStateM.Result Halt Session α → Prop
  | .ok _ s' => s.Keeps s' []
  | .error halt s' =>
    ∃ left, s.Keeps s' left ∧ ∀ e, halt = .failed e → left.length ≤ e.frames.length

namespace Session.Keeps

variable {s s' s'' : Session} {left left' : List (InstanceKey × InstanceId)}

/-- Most steps touch neither the counters nor the instances nor the entries of the cache. -/
theorem of_kept (h : s'.kept = s.kept) : s.Keeps s' [] := by
  simp only [kept, Prod.mk.injEq] at h
  obtain ⟨hoptions, hbodies, hwaves, hbody, hwave, hinstances, hentries⟩ := h
  refine ⟨hoptions, hbodies, hwaves, hbody ▸ Nat.le_max_left _ _, hwave ▸ Nat.le_max_left _ _,
    hinstances ▸ Nat.le_refl _, fun entry h => .inl ?_⟩
  rwa [Unfinished, hentries, instanceAt, hinstances] at h

theorem refl (s : Session) : s.Keeps s [] :=
  of_kept rfl

theorem trans (h : s.Keeps s' left) (h' : s'.Keeps s'' left') : s.Keeps s'' (left ++ left') where
  options := h'.options.trans h.options
  instantiationDepth := h'.instantiationDepth.trans h.instantiationDepth
  propagationDepth := h'.propagationDepth.trans h.propagationDepth
  deepestBody := by
    have hfirst := h.deepestBody
    have hsecond := h'.deepestBody
    rw [h.options] at hsecond
    omega
  deepestWave := by
    have hfirst := h.deepestWave
    have hsecond := h'.deepestWave
    rw [h.options, h.propagationDepth] at hsecond
    omega
  instances := Nat.le_trans h.instances h'.instances
  unfinished entry hentry := by
    rcases h'.unfinished entry hentry with hmiddle | hmem
    · exact (h.unfinished entry hmiddle).imp_right (List.mem_append_left _)
    · exact .inr (List.mem_append_right _ hmem)

/-- What a run keeps that starts with steps that leave nothing unfinished. -/
theorem followedBy {α : Type} {r : EStateM.Result Halt Session α} (h : s.Keeps s' [])
    (hr : s'.KeepsBy r) : s.KeepsBy r := by
  cases r with
  | ok a s'' => exact h.trans hr
  | error halt s'' =>
    obtain ⟨left, hleft, hlength⟩ := hr
    exact ⟨left, h.trans hleft, hlength⟩

/-- One more propagation is entered from within the limit, or is not gone on with. -/
theorem leaveWave (h : s.enterWave.Keeps s' left)
    (hroom : s.propagationDepth < s.options.maxPropagationDepth ∨
      s'.deepestWave = s.enterWave.deepestWave) :
    s.Keeps { s' with propagationDepth := s'.propagationDepth - 1 } left where
  __ := h
  propagationDepth := by rw [h.propagationDepth]; rfl
  deepestWave := by
    have hdeepest := h.deepestWave
    simp only [enterWave] at hdeepest hroom ⊢
    omega

theorem leaveBody (h : s.enterBody.Keeps s' left)
    (hroom : s.instantiationDepth < s.options.maxInstantiationDepth) :
    s.Keeps { s' with instantiationDepth := s'.instantiationDepth - 1 } left where
  __ := h
  instantiationDepth := by rw [h.instantiationDepth]; rfl
  deepestBody := by
    have hdeepest := h.deepestBody
    simp only [enterBody] at hdeepest ⊢
    omega

/-! ## Instances and the cache -/

/-- An instance that is not there counts as unfinished. -/
theorem pushInstance (inst : Instance) : s.Keeps { s with instances := s.instances.push inst } [] :=
  { refl s with
    instances := by simp
    unfinished := by
      rintro ⟨key, id⟩ ⟨hmem, hkind, hbody⟩
      simp only [instanceAt, Array.getElem?_push] at hkind hbody
      refine .inl ⟨hmem, ?_⟩
      split at hkind
      next hnew => simp [instanceAt, hnew, default]
      next hold => rw [if_neg hold] at hbody; exact ⟨hkind, hbody⟩ }

/-- A foreign instance is entered, which has no body. -/
theorem insertForeign {inst : Instance} (hforeign : inst.kind = .foreign) (key : InstanceKey) :
    s.Keeps { s with
      instances := s.instances.push inst, cache := s.cache.insert key ⟨s.instances.size⟩ } [] :=
  { refl s with
    instances := by simp
    unfinished := by
      rintro entry ⟨hmem, hrest⟩
      rcases List.mem_cons.1 hmem with rfl | hmem
      · simp [instanceAt, hforeign] at hrest
      · exact (pushInstance inst).unfinished entry ⟨(List.mem_filter.1 hmem).1, hrest⟩ }

theorem modifyInstance (id : InstanceId) {f : Instance → Instance}
    (hkind : ∀ inst, (f inst).kind = inst.kind)
    (hbody : ∀ inst, (f inst).body = none → inst.body = none) :
    s.Keeps { s with instances := s.instances.modify id.index f } [] :=
  { refl s with
    instances := by simp
    unfinished := by
      rintro ⟨key, other⟩ ⟨hmem, hrest⟩
      refine .inl ⟨hmem, ?_⟩
      simp only [instanceAt, Array.getElem?_modify] at hrest ⊢
      split at hrest
      next heq =>
        cases hfound : s.instances[id.index]? with
        | none => simpa [← heq, hfound] using hrest
        | some inst =>
          simp only [hfound, ← heq, Option.map_some, Option.getD_some, hkind] at hrest ⊢
          exact ⟨hrest.1, hbody inst hrest.2⟩
      next => exact hrest }

theorem insertCache (key : InstanceKey) (id : InstanceId) :
    s.Keeps { s with cache := s.cache.insert key id } [(key, id)] :=
  { refl s with
    unfinished := by
      rintro entry ⟨hmem, hrest⟩
      rcases List.mem_cons.1 hmem with rfl | hmem
      · exact .inr List.mem_cons_self
      · exact .inl ⟨(List.mem_filter.1 hmem).1, hrest⟩ }

end Session.Keeps

/-- The body of an instance is there once it was set. -/
theorem Session.Unfinished.ne_of_body {s : Session} {id : InstanceId} {body : NodeId}
    (hid : id.index < s.instances.size) {entry : InstanceKey × InstanceId} (h : ({ s with
        instances := s.instances.modify id.index ({ · with body := some body }) } :
      Session).Unfinished entry) : entry.2 ≠ id := by
  rintro rfl
  have hbody := h.2.2
  simp [instanceAt, Array.getElem_modify, hid] at hbody

theorem InstanceCache.entries_ask (c : InstanceCache) (key : InstanceKey) :
    (c.ask key).2.entries = c.entries := by
  rw [ask]
  split <;> rfl

end Callsite
