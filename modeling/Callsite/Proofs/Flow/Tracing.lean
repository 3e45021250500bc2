import Callsite.Flow.Graph
import Callsite.Proofs.Method.Replacement
import Mathlib.Data.List.Chain
import Mathlib.Data.List.Nodup

/-!
# Where a type came from

A trace goes from a node to the first input that carries the type and was not passed yet, and so
on.  Edges may form cycles, but every node is passed at most once, so the walk ends; it ends only
where no input is left to go to.  The trace lists the places of the nodes on the way.
-/

namespace Callsite.FlowGraph

variable {g : FlowGraph} {t : TypeTable} {type : TypeId} {id input : NodeId}
  {passed path : List NodeId}

/-- The type of a node includes the given one. -/
def Carries (g : FlowGraph) (t : TypeTable) (type : TypeId) (node : NodeId) : Prop :=
  (g.typeOf node).any (t.includes · type) = true

theorem Carries.lt_size (h : g.Carries t type id) : id.index < g.size := by
  by_contra hlt
  have hnone : g.nodes[id.index]? = none := Array.getElem?_eq_none (Nat.le_of_not_lt hlt)
  simp [Carries, typeOf, get, hnone, default] at h

theorem carrier?_eq_some (h : g.carrier? t type passed id = some input) :
    input ∈ (g.get id).inputs ∧ input ∉ passed ∧ g.Carries t type input := by
  have hfound := List.find?_some h
  simp only [Bool.and_eq_true, Bool.not_eq_true', List.contains_eq_mem, decide_eq_false_iff_not]
    at hfound
  exact ⟨List.mem_of_find?_eq_some h, hfound⟩

theorem carrier?_eq_none (h : g.carrier? t type passed id = none)
    (hinput : input ∈ (g.get id).inputs)
    (hcarries : g.Carries t type input) : input ∈ passed := by
  by_contra hpassed
  have hskipped := List.find?_eq_none.1 h input hinput
  rw [Carries] at hcarries
  simp [hpassed, hcarries] at hskipped

/-! ## Walks -/

/-- The walk from a node that has passed some nodes already, step by step up to its end. -/
inductive Walk (g : FlowGraph) (t : TypeTable) (type : TypeId) :
    List NodeId → NodeId → List NodeId → Prop
  | stop {passed : List NodeId} {id : NodeId} (hnone : g.carrier? t type passed id = none) :
      Walk g t type passed id []
  | step {passed path : List NodeId} {id input : NodeId}
      (hsome : g.carrier? t type passed id = some input)
      (hrest : Walk g t type (input :: passed) input path) :
      Walk g t type passed id (input :: path)

/-- The nodes of the graph that have not been passed. -/
def unpassed (g : FlowGraph) (passed : List NodeId) : List NodeId :=
  ((List.range g.size).map NodeId.mk).filter (· ∉ passed)

theorem length_unpassed_lt (h : g.carrier? t type passed id = some input) :
    (g.unpassed (input :: passed)).length < (g.unpassed passed).length := by
  obtain ⟨-, hnew, hcarries⟩ := carrier?_eq_some h
  have hmem : input ∈ g.unpassed passed :=
    List.mem_filter.2 ⟨List.mem_map.2 ⟨_, List.mem_range.2 hcarries.lt_size, rfl⟩, by simpa⟩
  have hsplit : g.unpassed (input :: passed) = (g.unpassed passed).filter (· ≠ input) := by
    simp [unpassed, List.filter_filter, not_or]
  rw [hsplit]
  exact List.length_filter_lt_length_iff_exists.2 ⟨input, hmem, by simp⟩

/-- A walk ends within as many steps as there are nodes left. -/
theorem walk_carriersWithin (length : Nat) (h : (g.unpassed passed).length ≤ length) :
    g.Walk t type passed id (g.carriersWithin t type length passed id) := by
  induction length generalizing passed id with
  | zero =>
    cases hnext : g.carrier? t type passed id with
    | none => exact .stop hnext
    | some input => exact absurd (length_unpassed_lt hnext) (by omega)
  | succ length ih =>
    rw [carriersWithin]
    cases hnext : g.carrier? t type passed id with
    | none => exact .stop hnext
    | some input => exact .step hnext (ih (by have := length_unpassed_lt hnext; omega))

theorem walk_carriers (g : FlowGraph) (t : TypeTable) (type : TypeId) (id : NodeId) :
    g.Walk t type [id] id (g.carriers t type id) := by
  refine walk_carriersWithin g.size ((List.length_filter_le _ _).trans ?_)
  simp

/-- A path of inputs that carry the type, from a node that has passed some nodes already.  It passes
every node at most once, and no input that carries the type is left at its end. -/
structure IsTrail (g : FlowGraph) (t : TypeTable) (type : TypeId) (passed : List NodeId)
    (id : NodeId) (path : List NodeId) : Prop where
  edges : (id :: path).IsChain fun node input => input ∈ (g.get node).inputs
  carries : ∀ node ∈ path, g.Carries t type node
  simple : (passed.reverse ++ path).Nodup
  maximal : ∀ last ∈ (id :: path).getLast?, ∀ input ∈ (g.get last).inputs,
    g.Carries t type input → input ∈ passed.reverse ++ path

theorem Walk.isTrail (h : g.Walk t type passed id path) (hpassed : passed.Nodup) :
    g.IsTrail t type passed id path := by
  induction h with
  | @stop passed id hnone =>
    refine ⟨.singleton _, by simp, by simpa using hpassed,
      fun last hlast input hinput hcarries => ?_⟩
    obtain rfl : id = last := by simpa using hlast
    simpa using carrier?_eq_none hnone hinput hcarries
  | @step passed path id input hsome _ ih =>
    obtain ⟨hinput, hnew, hcarries⟩ := carrier?_eq_some hsome
    have hrest := ih (List.nodup_cons.2 ⟨hnew, hpassed⟩)
    refine ⟨hrest.edges.cons_cons hinput, List.forall_mem_cons.2 ⟨hcarries, hrest.carries⟩, ?_, ?_⟩
    · simpa using hrest.simple
    · simpa [List.getLast?_cons_cons] using hrest.maximal

/-! ## Places -/

theorem foldl_addPlace (spans : List Span) :
    spans.foldl addPlace [] = (spans.filter (!·.isAbsent)).eraseDups := by
  induction spans using List.reverseRecOn with
  | nil => rfl
  | append_singleton spans span ih =>
    rw [List.foldl_append, ih, List.filter_append, List.foldl_cons, List.foldl_nil, addPlace]
    cases habsent : span.isAbsent
    · simp [habsent, MethodTable.eraseDups_concat]
    · simp [habsent]

/-- A trace ends and lists the places of a path of inputs from the node, which passes no node twice
and could not go on. -/
theorem trace_along_trail (g : FlowGraph) (t : TypeTable) (id : NodeId) (type : TypeId) :
    ∃ path : List NodeId, g.Walk t type [id] id path ∧ g.IsTrail t type [id] id path ∧
      g.trace t id type =
        ((path.map fun node => (g.get node).span).filter (!·.isAbsent)).eraseDups ∧
      (g.trace t id type).Nodup ∧ ∀ span ∈ g.trace t id type, span.isAbsent = false := by
  have hwalk := walk_carriers g t type id
  have htrace : g.trace t id type = (((g.carriers t type id).map fun node =>
      (g.get node).span).filter (!·.isAbsent)).eraseDups := foldl_addPlace _
  refine ⟨_, hwalk, hwalk.isTrail (List.nodup_singleton id), htrace, ?_, fun span hspan => ?_⟩
  · rw [htrace]
    exact MethodTable.nodup_eraseDups _
  · rw [htrace, List.mem_eraseDups] at hspan
    simpa using (List.mem_filter.1 hspan).2

end Callsite.FlowGraph
