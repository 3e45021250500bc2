import Callsite.Proofs.Run.Sound
import Callsite.Proofs.Types.Order
import Mathlib.Algebra.BigOperators.Group.Finset.Basic
import Mathlib.Algebra.Order.BigOperators.Group.Finset

/-!
# Settling a graph

In a graph of nodes that join their inputs and of nodes with a fixed type, every node
whose inputs have changed waits to be looked at.  A node that does not wait has the
join of its inputs, a node never has more than what its sources give, and whenever its
type changes more of the fixed types lie under it.  So looking at the nodes in turn
ends, and when none waits the types are the least solution.
-/

namespace Callsite

variable {other : NodeId}

/-! ## Sources -/

/-- The node `source` is reached from another one along inputs, through nodes that join. -/
inductive FlowGraph.Reaches (g : FlowGraph) : NodeId → NodeId → Prop
  | refl (node : NodeId) : Reaches g node node
  | step {node input source : NodeId} (hrule : (g.get node).rule = .union)
      (hinput : input ∈ (g.get node).inputs) (h : Reaches g input source) : Reaches g node source

namespace FlowGraph

variable {g g' : FlowGraph} {node input source : NodeId} {t t' : TypeTable} {d type u w : TypeId}
variable {waiting : List Observer}

/-- A node with the fixed type `d` is reached. -/
def HasSource (g : FlowGraph) (node : NodeId) (d : TypeId) : Prop :=
  ∃ source, g.Reaches node source ∧ (g.get source).rule = .pinned d

theorem lt_size_of_input (h : input ∈ (g.get node).inputs) : node.index < g.size := by
  by_contra hnot
  simp [g.get_of_not_lt node hnot, default] at h

theorem lt_size_of_pinned (h : (g.get node).rule = .pinned d) : node.index < g.size := by
  by_contra hnot
  simp [g.get_of_not_lt node hnot, default] at h

/-- More nodes and inputs give more sources. -/
theorem HasSource.mono (h : g.HasSource node d)
    (hrule : ∀ node, node.index < g.size → (g'.get node).rule = (g.get node).rule)
    (hinputs : ∀ node input, input ∈ (g.get node).inputs → input ∈ (g'.get node).inputs) :
    g'.HasSource node d := by
  obtain ⟨source, hreaches, hpinned⟩ := h
  refine ⟨source, ?_, by rw [hrule source (lt_size_of_pinned hpinned), hpinned]⟩
  induction hreaches with
  | refl node => exact .refl node
  | step hunion hinput _ ih =>
    exact .step (by rw [hrule _ (lt_size_of_input hinput), hunion]) (hinputs _ _ hinput)
      (ih hpinned)

theorem HasSource.of_input (h : g.HasSource input d) (hrule : (g.get node).rule = .union)
    (hinput : input ∈ (g.get node).inputs) : g.HasSource node d := by
  obtain ⟨source, hreaches, hpinned⟩ := h
  exact ⟨source, .step hrule hinput hreaches, hpinned⟩

theorem mem_inputTypes : type ∈ g.inputTypes node ↔
    ∃ input ∈ (g.get node).inputs, g.typeOf input = some type := by
  simp [inputTypes]

theorem lt_size_of_typed (h : g.inputTypes node ≠ []) : node.index < g.size := by
  obtain ⟨type, htype⟩ := List.exists_mem_of_ne_nil _ h
  obtain ⟨input, hinput, -⟩ := mem_inputTypes.1 htype
  exact lt_size_of_input hinput

/-! ## Graphs that settle -/

/-- The type of a node that joins comes from its inputs: it has one, and lies under whatever
their types lie under. -/
structure Rises (t : TypeTable) (g : FlowGraph) (node : NodeId) (type : TypeId) : Prop where
  typed : g.inputTypes node ≠ []
  under :
    ∀ t', t.Widens t' → t'.Regular → ∀ w, t'.Known w →
      (∀ v ∈ g.inputTypes node, t'.Under v w) → t'.Under type w

/-- A type is made of the fixed types that are reached: there is one, and the type lies under
whatever those below it lie under. -/
structure Generates (t : TypeTable) (g : FlowGraph) (node : NodeId) (type : TypeId) : Prop where
  sourced : ∃ d, g.HasSource node d
  under :
    ∀ t', t.Widens t' → t'.Regular → ∀ w, t'.Known w →
      (∀ d, g.HasSource node d → t'.Under d type → t'.Under d w) → t'.Under type w

/-- A node has the join of the types of its inputs, or none if they have none. -/
structure IsSettled (t : TypeTable) (g : FlowGraph) (node : NodeId) : Prop where
  untyped : g.inputTypes node = [] → g.typeOf node = none
  joined : g.inputTypes node ≠ [] → ∃ u, g.typeOf node = some u ∧ t.Joins (g.inputTypes node) u

/-- The nodes that join and do not wait have settled, and the others are on the way. -/
structure Settling (t : TypeTable) (g : FlowGraph) (waiting : List Observer) : Prop where
  regular : t.Regular
  overClasses : t.OverClasses
  linked : g.Linked
  observers : ∀ node, ∀ observer ∈ (g.get node).observers, ∃ id, observer = .node id
  queued : ∀ observer ∈ waiting, ∃ id, observer = .node id
  thawed : ∀ node, (g.get node).frozen = false
  rules :
    ∀ node, (g.get node).rule = .union ∨
      ∃ d, (g.get node).rule = .pinned d ∧ g.typeOf node = some d
  known : ∀ node type, g.typeOf node = some type → t.Known type
  rises :
    ∀ node type, (g.get node).rule = .union → g.typeOf node = some type → Rises t g node type
  generates : ∀ node type, g.typeOf node = some type → Generates t g node type
  settled : ∀ node, (g.get node).rule = .union → .node node ∉ waiting → IsSettled t g node

theorem Rises.later (h : Rises t g node type) (hwidens : t.Widens t') : Rises t' g node type :=
  ⟨h.typed, fun t'' hlater hregular => h.under t'' (hwidens.trans hlater) hregular⟩

theorem Generates.later (h : Generates t g node type) (hwidens : t.Widens t') :
    Generates t' g node type :=
  ⟨h.sourced, fun t'' hlater hregular => h.under t'' (hwidens.trans hlater) hregular⟩

/-- With more sources a type is still made of them. -/
theorem Generates.mono (h : Generates t g node type)
    (hsources : ∀ d, g.HasSource node d → g'.HasSource other d) : Generates t g' other type where
  sourced := h.sourced.imp hsources
  under := fun t' hwidens hregular w hw hall =>
    h.under t' hwidens hregular w hw fun d hd => hall d (hsources d hd)

theorem IsSettled.later (h : IsSettled t g node) (hwidens : t.Widens t') : IsSettled t' g node where
  untyped := h.untyped
  joined := by
    intro htyped
    obtain ⟨u, htype, hjoins⟩ := h.joined htyped
    exact ⟨u, htype, hjoins.later hwidens⟩

theorem IsSettled.congr (h : IsSettled t g node) (htypes : g'.inputTypes node = g.inputTypes node)
    (htype : g'.typeOf node = g.typeOf node) : IsSettled t g' node where
  untyped := by rw [htypes, htype]; exact h.untyped
  joined := by rw [htypes, htype]; exact h.joined

namespace Settling

theorem typeOf_of_pinned (h : Settling t g waiting) (hrule : (g.get node).rule = .pinned d) :
    g.typeOf node = some d := by
  rcases h.rules node with hunion | ⟨d', hpinned, htype⟩
  · simp [hunion] at hrule
  · obtain rfl : d' = d := by simpa [hpinned] using hrule
    exact htype

/-- A node that joins gets no type from anywhere but its inputs. -/
theorem typeOf_of_untyped (h : Settling t g waiting) (hrule : (g.get node).rule = .union)
    (hnone : g.inputTypes node = []) : g.typeOf node = none := by
  by_contra hsome
  obtain ⟨type, htype⟩ := Option.ne_none_iff_exists'.1 hsome
  exact (h.rises node type hrule htype).typed hnone

theorem known_inputTypes (h : Settling t g waiting) (node : NodeId) :
    ∀ type ∈ g.inputTypes node, t.Known type := by
  intro type htype
  obtain ⟨input, -, htypeOf⟩ := mem_inputTypes.1 htype
  exact h.known input type htypeOf

/-- A table with more types, and fewer nodes that wait because one of them has settled. -/
theorem drop (h : Settling t g (.node node :: waiting)) (hwidens : t.Widens t')
    (hregular : t'.Regular) (hsettled : (g.get node).rule = .union → IsSettled t' g node) :
    Settling t' g waiting where
  regular := hregular
  overClasses := hwidens.overClasses h.overClasses
  linked := h.linked
  observers := h.observers
  queued := (List.forall_mem_cons.1 h.queued).2
  thawed := h.thawed
  rules := h.rules
  known := fun node type htype => hwidens.known (h.known node type htype)
  rises := fun node type hrule htype => (h.rises node type hrule htype).later hwidens
  generates := fun node type htype => (h.generates node type htype).later hwidens
  settled := by
    intro other hrule hother
    by_cases heq : other = node
    · subst heq
      exact hsettled hrule
    · refine (h.settled other hrule ?_).later hwidens
      simpa [heq] using hother

end Settling

/-! ## Giving a node a new type -/

theorem hasSource_setType (type : Option TypeId) :
    (g.setType node type).HasSource source d ↔ g.HasSource source d := by
  constructor
  · intro h
    exact h.mono (fun other _ => (rule_setType g node other type).symm) (by simp)
  · intro h
    exact h.mono (fun other _ => rule_setType g node other type) (by simp)

/-- A node that is no input may change without changing the types of the inputs. -/
theorem inputTypes_setType {type : Option TypeId} (h : node ∉ (g.get other).inputs) :
    (g.setType node type).inputTypes other = g.inputTypes other := by
  rw [inputTypes, inputTypes, inputs_setType]
  refine List.filterMap_congr fun input hinput => ?_
  rw [typeOf_setType, if_neg]
  rintro ⟨rfl, -⟩
  exact h hinput

/-- A node that joins has the inputs whose join is `u` in the wider table `t'`. -/
structure Derives (t : TypeTable) (g : FlowGraph) (node : NodeId) (t' : TypeTable) (u : TypeId) :
    Prop where
  widens : t.Widens t'
  regular : t'.Regular
  rule : (g.get node).rule = .union
  typed : g.inputTypes node ≠ []
  joins : t'.Joins (g.inputTypes node) u
  known : t'.Known u

namespace Settling

/-- A node that joins lies below the join of its inputs. -/
theorem under_of_joins (h : Settling t g waiting) (hu : Derives t g node t' u)
    (htype : g.typeOf node = some type) : t'.Under type u :=
  (h.rises node type hu.rule htype).under t' hu.widens hu.regular u hu.known
    fun _ hv => hu.joins.under hv

/-- The join of the inputs is made of the sources of the node. -/
theorem generates_join (h : Settling t g waiting) (hu : Derives t g node t' u) :
    Generates t' g node u := by
  refine ⟨?_, fun t'' hlater hregular w hw hsources => ?_⟩
  · obtain ⟨v, hv⟩ := List.exists_mem_of_ne_nil _ hu.typed
    obtain ⟨input, hinput, htype⟩ := mem_inputTypes.1 hv
    exact (h.generates input v htype).sourced.imp fun d hd => hd.of_input hu.rule hinput
  have hjoins' := hu.joins.later hlater
  refine hjoins'.least hw fun v hv => ?_
  obtain ⟨input, hinput, htype⟩ := mem_inputTypes.1 hv
  have hwidens := hu.widens.trans hlater
  refine (h.generates input v htype).under t'' hwidens hregular w hw fun d hd hunder => ?_
  have hkd : t''.Known d := by
    obtain ⟨source, -, hpinned⟩ := hd
    exact hwidens.known (h.known source d (h.typeOf_of_pinned hpinned))
  exact hsources d (hd.of_input hu.rule hinput) (hunder.trans (hjoins'.under hv)
    (hwidens.overClasses h.overClasses) hkd)

/-- A node that joins still rises after another one got the join of its inputs: an old type of
that node lies under its new one, and all others are still there. -/
theorem rises_setType (h : Settling t g waiting) (hu : Derives t g node t' u)
    (hother : (g.get other).rule = .union) (htype : g.typeOf other = some type) :
    Rises t' (g.setType node (some u)) other type := by
  have hrises := (h.rises other type hother htype).later hu.widens
  have hstill : ∀ v ∈ g.inputTypes other,
      ∃ v' ∈ (g.setType node (some u)).inputTypes other, t'.Under v v' := by
    intro v hv
    obtain ⟨input, hinput, hv⟩ := mem_inputTypes.1 hv
    have hinput' : input ∈ ((g.setType node (some u)).get other).inputs := by simpa using hinput
    by_cases hnode : node = input
    · subst hnode
      have htypeOf := typeOf_setType_self (lt_size_of_typed hu.typed) (some u)
      exact ⟨u, mem_inputTypes.2 ⟨node, hinput', htypeOf⟩, h.under_of_joins hu hv⟩
    · have htypeOf := typeOf_setType_of_ne (g := g) hnode (some u)
      exact ⟨v, mem_inputTypes.2 ⟨input, hinput', htypeOf.trans hv⟩, .refl t' v⟩
  refine ⟨?_, fun t'' hlater hregular' w hw hunder => ?_⟩
  · obtain ⟨v, hv⟩ := List.exists_mem_of_ne_nil _ hrises.typed
    obtain ⟨v', hv', -⟩ := hstill v hv
    exact List.ne_nil_of_mem hv'
  · refine hrises.under t'' hlater hregular' w hw fun v hv => ?_
    obtain ⟨v', hv', hle⟩ := hstill v hv
    have hwidens := hu.widens.trans hlater
    have hkv := hwidens.known (h.known_inputTypes other v hv)
    exact (hle.later hlater).trans (hunder v' hv') (hwidens.overClasses h.overClasses) hkv

/-- A node that does not observe another one stays settled when that gets a type. -/
theorem isSettled_setType (h : IsSettled t g other) (hne : node ≠ other)
    (hnot : node ∉ (g.get other).inputs) (type : Option TypeId) :
    IsSettled t (g.setType node type) other :=
  h.congr (inputTypes_setType hnot) (typeOf_setType_of_ne hne type)

/-- A node gets the join of its inputs, and its observers wait. -/
theorem assign (h : Settling t g (.node node :: waiting)) (hu : Derives t g node t' u) :
    Settling t' (g.setType node (some u)) ((g.get node).observers ++ waiting) := by
  have hwidens := hu.widens
  have htypeOf : (g.setType node (some u)).typeOf node = some u :=
    typeOf_setType_self (lt_size_of_typed hu.typed) _
  have hself : (g.setType node (some u)).inputTypes node = g.inputTypes node :=
    inputTypes_setType fun hinput => (h.linked node node hinput).2.1 rfl
  constructor
  case regular => exact hu.regular
  case overClasses => exact hwidens.overClasses h.overClasses
  case linked => exact h.linked.of_same (by simp) (by simp) (by simp)
  case observers => simpa using h.observers
  case queued =>
    exact List.forall_mem_append.2 ⟨h.observers node, (List.forall_mem_cons.1 h.queued).2⟩
  case thawed => simpa using h.thawed
  case rules =>
    intro other
    by_cases heq : node = other
    · exact Or.inl (by rw [rule_setType, ← heq, hu.rule])
    · rw [rule_setType, typeOf_setType_of_ne heq]
      exact h.rules other
  case known =>
    intro other type htype
    by_cases heq : node = other
    · subst heq
      obtain rfl := Option.some.inj (htypeOf.symm.trans htype)
      exact hu.known
    · rw [typeOf_setType_of_ne heq] at htype
      exact hwidens.known (h.known other type htype)
  case rises =>
    intro other type hother htype
    rw [rule_setType] at hother
    by_cases heq : node = other
    · subst heq
      obtain rfl := Option.some.inj (htypeOf.symm.trans htype)
      refine ⟨by rw [hself]; exact hu.typed, fun t'' hlater _ w hw hunder => ?_⟩
      rw [hself] at hunder
      exact (hu.joins.later hlater).least hw hunder
    · rw [typeOf_setType_of_ne heq] at htype
      exact h.rises_setType hu hother htype
  case generates =>
    intro other type htype
    have hgenerates : Generates t' g other type := by
      by_cases heq : node = other
      · subst heq
        obtain rfl := Option.some.inj (htypeOf.symm.trans htype)
        exact h.generates_join hu
      · rw [typeOf_setType_of_ne heq] at htype
        exact (h.generates other type htype).later hwidens
    exact hgenerates.mono fun d hd => (hasSource_setType (some u)).2 hd
  case settled =>
    intro other hother hwaiting
    rw [rule_setType] at hother
    simp only [List.mem_append, not_or] at hwaiting
    by_cases heq : node = other
    · subst heq
      refine ⟨fun hnone => absurd (hself ▸ hnone) hu.typed, fun _ => ⟨u, htypeOf, ?_⟩⟩
      rw [hself]
      exact hu.joins
    · have hold := h.settled other hother (by simpa [Ne.symm heq] using hwaiting.2)
      refine isSettled_setType (hold.later hwidens) heq (fun hinput => ?_) _
      exact hwaiting.1 (h.linked other node hinput).2.2

end Settling

/-! ## Looking at a node -/

/-- The type that a node should have, when it differs from the one it has, and the table after
deriving it. -/
def news (g : FlowGraph) (node : NodeId) (t : TypeTable) : Option TypeId × TypeTable :=
  (if (g.derive node t).1 = g.typeOf node then none else (g.derive node t).1, (g.derive node t).2)

/-- A fixed type never changes. -/
theorem Settling.news_of_pinned (h : Settling t g waiting) (hrule : (g.get node).rule = .pinned d) :
    g.news node t = (none, t) := by
  have htype := h.typeOf_of_pinned hrule
  have hnode : (g.get node).type = some d := htype
  rw [news, derive, htype]
  cases g.inputTypes node with
  | nil =>
    cases (g.get node).inputs.isEmpty with
    | true => simp [hnode]
    | false => simp
  | cons first rest =>
    rw [hrule]
    exact Prod.ext (if_pos rfl) rfl

/-- A node that joins has news if the join of its inputs is not its type. -/
theorem Settling.news_of_union (h : Settling t g waiting) (hrule : (g.get node).rule = .union) :
    (g.inputTypes node = [] ∧ g.news node t = (none, t)) ∨
      (g.inputTypes node ≠ [] ∧
        g.news node t =
          (if some (TypeTable.unionOf (g.inputTypes node) t).1 = g.typeOf node then none
            else some (TypeTable.unionOf (g.inputTypes node) t).1,
            (TypeTable.unionOf (g.inputTypes node) t).2)) := by
  cases htypes : g.inputTypes node with
  | nil =>
    have htype := h.typeOf_of_untyped hrule htypes
    have hnode : (g.get node).type = none := htype
    rw [news, derive, htypes, htype]
    simp [hnode]
  | cons first rest =>
    refine Or.inr ⟨by simp, ?_⟩
    rw [news, derive, htypes, hrule]
    rfl

/-! ## The potential of a graph -/

def pinnedTypes (g : FlowGraph) : List TypeId :=
  (List.range g.size).filterMap fun i =>
    match (g.get ⟨i⟩).rule with
    | .pinned d => some d
    | _ => none

theorem mem_pinnedTypes : d ∈ g.pinnedTypes ↔ ∃ node, (g.get node).rule = .pinned d := by
  simp only [pinnedTypes, List.mem_filterMap, List.mem_range]
  constructor
  · rintro ⟨i, -, hmatch⟩
    refine ⟨⟨i⟩, ?_⟩
    split at hmatch
    next d' hrule => rw [hrule, Option.some.inj hmatch]
    next => simp at hmatch
  · rintro ⟨node, hrule⟩
    exact ⟨node.index, lt_size_of_pinned hrule, by rw [hrule]⟩

theorem pinnedTypes_setType (type : Option TypeId) :
    (g.setType node type).pinnedTypes = g.pinnedTypes := by
  simp [pinnedTypes]

open Classical in
/-- How many of the fixed types lie under a type. -/
noncomputable def rank (t : TypeTable) (g : FlowGraph) (type : TypeId) : Nat :=
  (g.pinnedTypes.toFinset.filter fun d => t.Under d type).card

/-- How often a node can still change. -/
noncomputable def deficit (t : TypeTable) (g : FlowGraph) (node : NodeId) : Nat :=
  match g.typeOf node with
  | none => g.pinnedTypes.toFinset.card + 1
  | some type => g.pinnedTypes.toFinset.card - rank t g type

/-- How often nodes can still change. -/
noncomputable def potential (t : TypeTable) (g : FlowGraph) : Nat :=
  ∑ i ∈ Finset.range g.size, deficit t g ⟨i⟩

theorem rank_le_card (t : TypeTable) (g : FlowGraph) (type : TypeId) :
    rank t g type ≤ g.pinnedTypes.toFinset.card := by
  classical
  exact Finset.card_filter_le _ _

theorem rank_le_of_widens (h : t.Widens t') (g : FlowGraph) (type : TypeId) :
    rank t g type ≤ rank t' g type := by
  classical
  refine Finset.card_le_card fun d hd => ?_
  rw [Finset.mem_filter] at hd ⊢
  exact ⟨hd.1, hd.2.later h⟩

theorem Settling.known_of_pinned (h : Settling t g waiting) (hd : d ∈ g.pinnedTypes) :
    t.Known d := by
  obtain ⟨node, hrule⟩ := mem_pinnedTypes.1 hd
  exact h.known node d (h.typeOf_of_pinned hrule)

/-- A greater type that is made of fixed ones has more of them under it. -/
theorem rank_lt (hregular : t.Regular) (hc : t.OverClasses)
    (hpinned : ∀ d ∈ g.pinnedTypes, t.Known d) (hgenerates : Generates t g node u)
    (hk : t.Known type) (hu : t.Known u) (hunder : t.Under type u) (hne : u ≠ type) :
    rank t g type < rank t g u := by
  classical
  refine Finset.card_lt_card (Finset.ssubset_iff_subset_ne.2 ⟨fun d hd => ?_, fun heq => hne ?_⟩)
  · rw [Finset.mem_filter] at hd ⊢
    exact ⟨hd.1, hd.2.trans hunder hc (hpinned d (List.mem_toFinset.1 hd.1))⟩
  · -- If no fixed type were new, the greater type would lie under the smaller one.
    refine TypeTable.Under.antisymm
      (hgenerates.under t (.refl t) hregular type hk fun d hd hdu => ?_) hunder
      hregular hc hu hk
    obtain ⟨source, -, hrule⟩ := hd
    have hmem : d ∈ g.pinnedTypes.toFinset :=
      List.mem_toFinset.2 (mem_pinnedTypes.2 ⟨source, hrule⟩)
    have hboth := Finset.ext_iff.1 heq d
    simp only [Finset.mem_filter, hmem, true_and] at hboth
    exact hboth.2 hdu

theorem deficit_le_of_widens (h : t.Widens t') : deficit t' g node ≤ deficit t g node := by
  rw [deficit, deficit]
  split
  next => exact Nat.le_refl _
  next type _ =>
    have hrank := rank_le_of_widens h g type
    omega

theorem potential_le_of_widens (h : t.Widens t') : potential t' g ≤ potential t g :=
  Finset.sum_le_sum fun _ _ => deficit_le_of_widens h

/-- The potential falls when a node changes. -/
theorem Settling.potential_lt (h : Settling t g waiting) (hu : Derives t g node t' u)
    (hne : some u ≠ g.typeOf node) :
    potential t' (g.setType node (some u)) < potential t g := by
  have hwidens := hu.widens
  have hlt := lt_size_of_typed hu.typed
  have hpinned : ∀ d ∈ g.pinnedTypes, t'.Known d := fun d hd => hwidens.known (h.known_of_pinned hd)
  have hsame : ∀ type, rank t' (g.setType node (some u)) type = rank t' g type := by
    intro type
    rw [rank, rank, pinnedTypes_setType]
  have hnode : deficit t' (g.setType node (some u)) node < deficit t g node := by
    have hrank := rank_le_card t' g u
    rw [deficit, deficit, typeOf_setType, if_pos ⟨rfl, hlt⟩, pinnedTypes_setType]
    simp only [hsame]
    cases htype : g.typeOf node with
    | none =>
      simp only
      omega
    | some type =>
      have hmore := rank_lt hu.regular (hwidens.overClasses h.overClasses) hpinned
        (h.generates_join hu) (hwidens.known (h.known node type htype)) hu.known
        (h.under_of_joins hu htype) (fun heq => hne (by rw [heq, htype]))
      have hgrown := rank_le_of_widens hwidens g type
      simp only
      omega
  rw [potential, potential, size_setType]
  refine Finset.sum_lt_sum (fun i _ => ?_) ⟨node.index, Finset.mem_range.2 hlt, hnode⟩
  by_cases heq : (⟨i⟩ : NodeId) = node
  · rw [heq]
    exact hnode.le
  · have hold : deficit t' (g.setType node (some u)) ⟨i⟩ = deficit t' g ⟨i⟩ := by
      rw [deficit, deficit, typeOf_setType, if_neg fun hand => heq hand.1.symm, pinnedTypes_setType]
      simp only [hsame]
    rw [hold]
    exact deficit_le_of_widens hwidens

end FlowGraph

end Callsite
