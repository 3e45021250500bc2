import Callsite.Proofs.Flow.Settling

/-!
# Propagation settles a graph

Looking at the nodes that wait, in whatever order they come up, ends with a graph in
which no node waits, provided the engine may look at enough of them.
-/

namespace Callsite

open FlowGraph

variable {s s' : Session} {node : NodeId} {type : TypeId} {waiting rest : List Observer}
variable {t : TypeTable} {g : FlowGraph}

/-! ## One step of propagation -/

/-- Looking at a node that waits: without news it has settled, with news it gets its new type
and its observers wait. -/
theorem FlowGraph.Settling.step (h : Settling t g (.node node :: waiting)) :
    ((g.news node t).1 = none →
      Settling (g.news node t).2 g waiting ∧ potential (g.news node t).2 g ≤ potential t g) ∧
    ∀ type, (g.news node t).1 = some type →
      Settling (g.news node t).2 (g.setType node type) ((g.get node).observers ++ waiting) ∧
        potential (g.news node t).2 (g.setType node type) < potential t g := by
  rcases h.rules node with hrule | ⟨d, hrule, -⟩
  · rcases h.news_of_union hrule with ⟨hnone, hnews⟩ | ⟨htyped, hnews⟩
    · rw [hnews]
      refine ⟨fun _ => ⟨h.drop (.refl t) h.regular fun _ => ?_, Nat.le_refl _⟩, by simp⟩
      exact ⟨h.typeOf_of_untyped hrule, fun htyped => absurd hnone htyped⟩
    · have hk := h.known_inputTypes node
      have hunion : Derives t g node (TypeTable.unionOf (g.inputTypes node) t).2
          (TypeTable.unionOf (g.inputTypes node) t).1 :=
        ⟨TypeTable.unionOf_widens _ t, h.regular.unionOf hk, hrule, htyped,
          h.regular.unionOf_joins h.overClasses hk,
          (TypeTable.unionOf_builds h.regular.founded hk).2⟩
      rw [hnews]
      refine ⟨fun hnone => ?_, fun type hsome => ?_⟩
      · have heq : some (TypeTable.unionOf (g.inputTypes node) t).1 = g.typeOf node := by
          by_contra hne
          simp [hne] at hnone
        refine ⟨h.drop hunion.widens hunion.regular fun _ => ?_,
          potential_le_of_widens hunion.widens⟩
        exact ⟨fun hempty => absurd hempty htyped, fun _ => ⟨_, heq.symm, hunion.joins⟩⟩
      · by_cases hne : some (TypeTable.unionOf (g.inputTypes node) t).1 = g.typeOf node
        · simp [hne] at hsome
        · obtain rfl : (TypeTable.unionOf (g.inputTypes node) t).1 = type := by
            simpa [hne] using hsome
          exact ⟨h.assign hunion, h.potential_lt hunion hne⟩
  · rw [h.news_of_pinned hrule]
    refine ⟨fun _ => ⟨h.drop (.refl t) h.regular fun hunion => ?_, Nat.le_refl _⟩, by simp⟩
    simp [hrule] at hunion

/-! ## Runs that return -/

/-- A computation returns `a` and leads to the session `s'`. -/
def Infer.Returns {α : Type} (x : Infer α) (s : Session) (a : α) (s' : Session) : Prop :=
  x s = .ok a s'

namespace Infer

namespace Returns

variable {α β : Type} {x : Infer α} {f : α → Infer β} {s1 : Session} {a : α} {b : β}

theorem pure (a : α) (s : Session) : Returns (Pure.pure a) s a s := rfl

theorem bind_eq (hx : Returns x s a s1) : (x >>= f) s = f a s1 := by
  have hrun : x s = .ok a s1 := hx
  simp [Bind.bind, EStateM.bind, hrun]

theorem bind (hx : Returns x s a s1) (hf : Returns (f a) s1 b s') : Returns (x >>= f) s b s' :=
  hx.bind_eq.trans hf

theorem get_bind_eq (f : Session → Infer β) (s : Session) : (get >>= f) s = f s s := rfl

theorem get_bind {f : Session → Infer β} (h : Returns (f s) s b s') :
    Returns (get >>= f) s b s' := h

end Returns

theorem forM_known_returns {types : List TypeId} (h : ∀ type ∈ types, s.types.Known type) :
    Returns (types.forM known) s () s := by
  induction types with
  | nil => exact .pure () s
  | cons first rest ih =>
    have hfirst : Returns (known first) s () s := by
      have hk : first.index < s.types.size := h first List.mem_cons_self
      refine .get_bind ?_
      rw [if_pos hk]
      exact .pure () s
    exact hfirst.bind (ih (List.forall_mem_cons.1 h).2)

theorem change?_returns (h : Settling s.types s.flow waiting) (node : NodeId) :
    Returns (change? node) s (s.flow.news node s.types).1
      { s with types := (s.flow.news node s.types).2 } := by
  have hknown : ∀ type ∈ s.flow.joined node, s.types.Known type := by
    intro type htype
    rw [joined] at htype
    split at htype
    next => simp at htype
    next => exact h.known_inputTypes node type htype
  refine .get_bind ((forM_known_returns hknown).bind ?_)
  exact rfl

theorem assign_returns (h : (s.flow.get node).frozen = false) (type : TypeId) :
    Returns (assign node type) s () { s with flow := s.flow.setType node type } := by
  refine .get_bind ?_
  simp only [h, Bool.false_eq_true, if_false]
  exact rfl

section

variable (hthawed : (s.flow.get node).frozen = false)
  (hchange : Returns (change? node) s (some type) { s with types := t })
include hthawed hchange

/-- A node with news gets its type, and its observers are looked at next. -/
theorem wake_of_change (engine : Engine) :
    Returns (wake engine (.node node)) s (s.flow.get node).observers
      { s with types := t, flow := s.flow.setType node type } := by
  have hassign := assign_returns (s := { s with types := t }) hthawed type
  refine hchange.bind (hassign.bind (.get_bind ?_))
  simp only [observers_setType]
  exact .pure _ _

theorem update_of_change (engine : Engine) :
    update engine node s
      = notify engine node { s with types := t, flow := s.flow.setType node type } := by
  have hassign := assign_returns (s := { s with types := t }) hthawed type
  exact hchange.bind_eq.trans (hassign.bind_eq (f := fun _ => notify engine node))

end

/-- Looking at a node gives its observers if it has news, and nothing else to look at. -/
theorem wake_returns (engine : Engine) (h : Settling s.types s.flow waiting) (node : NodeId) :
    ((s.flow.news node s.types).1 = none →
      Returns (wake engine (.node node)) s [] { s with types := (s.flow.news node s.types).2 }) ∧
    ∀ type, (s.flow.news node s.types).1 = some type →
      Returns (wake engine (.node node)) s (s.flow.get node).observers
        { s with types := (s.flow.news node s.types).2, flow := s.flow.setType node type } := by
  have hchange := change?_returns h node
  refine ⟨fun hnone => ?_, fun type hsome => ?_⟩
  · rw [hnone] at hchange
    exact hchange.bind (.pure _ _)
  · rw [hsome] at hchange
    exact wake_of_change (h.thawed node) hchange engine

theorem propagate_nil (engine : Engine) (budget : Nat) : propagate engine budget [] = pure () := by
  cases budget <;> rfl

/-- Propagation ends, given that it may look at enough nodes, and leaves no node waiting. -/
def Ends (s : Session) (waiting : List Observer) : Prop :=
  ∃ bound, ∀ engine budget,
    (bound ≤ budget → ∃ s', Returns (propagate engine budget waiting) s () s') ∧
    ∀ s', Returns (propagate engine budget waiting) s () s' →
      ∃ t' g', s' = { s with types := t', flow := g' } ∧ Settling t' g' []

theorem Ends.of_wake {observer : Observer} {woken : List Observer} {t1 : TypeTable} {g1 : FlowGraph}
    (hwake : ∀ engine, Returns (wake engine observer) s woken { s with types := t1, flow := g1 })
    (h : Ends { s with types := t1, flow := g1 } (woken ++ rest)) : Ends s (observer :: rest) := by
  obtain ⟨bound, hbound⟩ := h
  refine ⟨bound + 1, fun engine budget => ?_⟩
  cases budget with
  | zero => exact ⟨fun hle => absurd hle (by omega), fun s' hs' => nomatch hs'⟩
  | succ budget =>
    have hstep : propagate engine (budget + 1) (observer :: rest) s
        = propagate engine budget (woken ++ rest) { s with types := t1, flow := g1 } :=
      (hwake engine).bind_eq
    obtain ⟨htotal, hresult⟩ := hbound engine budget
    simp only [Returns, hstep]
    refine ⟨fun hle => htotal (by omega), fun s' hs' => ?_⟩
    obtain ⟨t', g', rfl, hsettling⟩ := hresult s' hs'
    exact ⟨t', g', rfl, hsettling⟩

/-- Every propagation over nodes ends: looking at a node makes the potential of the graph fall
or the list of those that wait shorter. -/
theorem propagate_ends (h : Settling s.types s.flow waiting) : Ends s waiting := by
  generalize hn : potential s.types s.flow = n
  induction n using Nat.strongRecOn generalizing s waiting with
  | ind n ihPotential =>
    induction waiting generalizing s with
    | nil =>
      refine ⟨0, fun engine budget => ?_⟩
      rw [propagate_nil]
      refine ⟨fun _ => ⟨s, .pure () s⟩, fun s' hs' => ?_⟩
      obtain ⟨-, rfl⟩ : () = () ∧ s = s' := by simpa [Returns, pure, EStateM.pure] using hs'
      exact ⟨s.types, s.flow, rfl, h⟩
    | cons observer rest ihWaiting =>
      obtain ⟨node, rfl⟩ := h.queued observer List.mem_cons_self
      obtain ⟨hnone, hsome⟩ := h.step
      cases hnews : (s.flow.news node s.types).1 with
      | none =>
        obtain ⟨hsettling, hle⟩ := hnone hnews
        refine Ends.of_wake (fun engine => (wake_returns engine h node).1 hnews) ?_
        rcases Nat.lt_or_eq_of_le hle with hlt | heq
        · exact ihPotential _ (hn ▸ hlt) hsettling rfl
        · exact ihWaiting hsettling (heq.trans hn)
      | some type =>
        obtain ⟨hsettling, hlt⟩ := hsome type hnews
        refine Ends.of_wake (fun engine => (wake_returns engine h node).2 type hnews) ?_
        exact ihPotential _ (hn ▸ hlt) hsettling rfl

/-! ## Updating a node -/

/-- A computation ends with an engine that may look at enough nodes, and leaves no node
waiting. -/
def Settles (x : Engine → Infer Unit) (s : Session) : Prop :=
  ∃ bound, ∀ engine,
    (bound ≤ engine.budget → ∃ s', Returns (x engine) s () s') ∧
    ∀ s', Returns (x engine) s () s' →
      ∃ t' g' w, s' = { s with types := t', flow := g', deepestWave := w } ∧ Settling t' g' []

theorem Settles.of_eq {x y : Engine → Infer Unit} (t1 : TypeTable) (g1 : FlowGraph)
    (heq : ∀ engine, x engine s = y engine { s with types := t1, flow := g1 })
    (h : Settles y { s with types := t1, flow := g1 }) : Settles x s := by
  obtain ⟨bound, hbound⟩ := h
  refine ⟨bound, fun engine => ?_⟩
  simp only [Returns, heq]
  exact hbound engine

theorem Settles.done (h : Settling s.types s.flow []) : Settles (fun _ => pure ()) s := by
  refine ⟨0, fun _ => ⟨fun _ => ⟨s, .pure () s⟩, fun s' hs' => ?_⟩⟩
  obtain ⟨-, rfl⟩ : () = () ∧ s = s' := by simpa [Returns, pure, EStateM.pure] using hs'
  exact ⟨s.types, s.flow, s.deepestWave, rfl, h⟩

theorem notify_of_unobserved (engine : Engine) (h : (s.flow.get node).observers = []) :
    Returns (notify engine node) s () s := by
  refine .get_bind ?_
  simp only [h, List.isEmpty_nil, if_true]
  exact .pure () s

theorem notify_of_observed (engine : Engine) (h : (s.flow.get node).observers ≠ [])
    (hdepth : s.propagationDepth < s.options.maxPropagationDepth) :
    notify engine node s =
      deeper (propagate engine engine.budget (s.flow.get node).observers) s := by
  have hlimit : ¬ s.enterWave.options.maxPropagationDepth < s.enterWave.propagationDepth :=
    Nat.not_lt.2 hdepth
  have hisEmpty : (s.flow.get node).observers.isEmpty = false := by simpa using h
  simp only [notify, Returns.get_bind_eq, hisEmpty, Bool.false_eq_true, if_false, deeper, hlimit]

theorem notify_settles (h : Settling s.types s.flow (s.flow.get node).observers)
    (hdepth : s.propagationDepth < s.options.maxPropagationDepth) : Settles (notify · node) s := by
  by_cases hempty : (s.flow.get node).observers = []
  · rw [hempty] at h
    exact Settles.of_eq s.types s.flow (fun engine => notify_of_unobserved engine hempty) (.done h)
  · have hrun : ∀ engine, notify engine node s =
        deeper (propagate engine engine.budget (s.flow.get node).observers) s :=
      fun engine => notify_of_observed engine hempty hdepth
    obtain ⟨bound, hbound⟩ := propagate_ends (s := s.enterWave) h
    refine ⟨bound, fun engine => ?_⟩
    obtain ⟨htotal, hresult⟩ := hbound engine engine.budget
    simp only [Returns, hrun, deeper]
    refine ⟨fun hle => ?_, fun s' hs' => ?_⟩
    · obtain ⟨s', hs'⟩ := htotal hle
      rw [hs']
      exact ⟨_, rfl⟩
    · split at hs'
      next s1 hs1 =>
        obtain ⟨t', g', rfl, hsettling⟩ := hresult s1 hs1
        refine ⟨t', g', s.enterWave.deepestWave, ?_, hsettling⟩
        cases hs'
        rfl
      next => cases hs'

theorem update_settles (h : Settling s.types s.flow [.node node])
    (hdepth : s.propagationDepth < s.options.maxPropagationDepth) : Settles (update · node) s := by
  obtain ⟨hnone, hsome⟩ := h.step
  have hchange := change?_returns h node
  cases hnews : (s.flow.news node s.types).1 with
  | none =>
    rw [hnews] at hchange
    exact Settles.of_eq _ s.flow (fun engine => hchange.bind_eq) (.done (hnone hnews).1)
  | some type =>
    rw [hnews] at hchange
    refine Settles.of_eq (y := (notify · node)) _ _ (update_of_change (h.thawed node) hchange)
      (notify_settles ?_ hdepth)
    simpa using (hsome type hnews).1

end Infer

end Callsite
