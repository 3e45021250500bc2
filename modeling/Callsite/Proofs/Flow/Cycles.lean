import Callsite.Proofs.Flow.Propagation
import Callsite.Proofs.Types.Nesting

/-!
# A propagation without end

Array literals build types from the types of their items.  A variable that is assigned an array
of itself is `Nil | Array(T)` for its own last type `T`, which is another type each time: however
many nodes a propagation may look at, it looks at that many and is not done.
-/

namespace Callsite

open TypeTable FlowGraph

variable {source : Rule} {waiting : List Observer}

/-! ## Nodes and their edges -/

/-- A node that is not frozen, with its inputs, its observers and its rule. -/
structure FlowGraph.Wired (g : FlowGraph) (node : NodeId) (inputs : List NodeId)
    (observers : List Observer) (rule : Rule) : Prop where
  has : node.index < g.size
  inputs : (g.get node).inputs = inputs
  observers : (g.get node).observers = observers
  rule : (g.get node).rule = rule
  thawed : (g.get node).frozen = false

theorem FlowGraph.Wired.setType
    {g : FlowGraph} {node : NodeId} {inputs : List NodeId} {observers : List Observer} {rule : Rule}
    (h : g.Wired node inputs observers rule) (changed : NodeId) (type : Option TypeId) :
    (g.setType changed type).Wired node inputs observers rule where
  has := by simpa using h.has
  inputs := by simpa using h.inputs
  observers := by simpa using h.observers
  rule := by simpa using h.rule
  thawed := by simpa using h.thawed

namespace FlowGraph

variable {g : FlowGraph} {node other input : NodeId} {inputs inputs' : List NodeId}
  {observers observers' : List Observer} {rule : Rule} {type : TypeId}

theorem ne_of_lt_size (h : node.index < g.size) : node ≠ ⟨g.size⟩ := fun heq =>
  h.ne (congrArg NodeId.index heq)

theorem Wired.of_get {g' : FlowGraph} (h : g.Wired node inputs observers rule)
    (hsize : g.size ≤ g'.size)
    (hget : g'.get node = { g.get node with inputs := inputs', observers := observers' }) :
    g'.Wired node inputs' observers' rule where
  has := h.has.trans_le hsize
  inputs := by rw [hget]
  observers := by rw [hget]
  rule := by rw [hget, h.rule]
  thawed := by rw [hget, h.thawed]

theorem Wired.of_get_eq {g' : FlowGraph} (h : g.Wired node inputs observers rule)
    (hsize : g.size ≤ g'.size) (hget : g'.get node = g.get node) :
    g'.Wired node inputs observers rule :=
  h.of_get hsize (by rw [hget, ← h.inputs, ← h.observers])

theorem Wired.push (h : g.Wired node inputs observers rule) (fresh : FlowNode) :
    (⟨g.nodes.push fresh⟩ : FlowGraph).Wired node inputs observers rule :=
  h.of_get_eq (by simp) (by rw [get_push, if_neg (h.has.ne)])

/-- A new node depends on nothing and is not observed. -/
theorem wired_push (g : FlowGraph) {fresh : FlowNode} (hblank : fresh.IsBlank)
    (hthawed : fresh.frozen = false) :
    (⟨g.nodes.push fresh⟩ : FlowGraph).Wired ⟨g.size⟩ [] [] fresh.rule := by
  have hget : (⟨g.nodes.push fresh⟩ : FlowGraph).get ⟨g.size⟩ = fresh := by
    rw [get_push, if_pos rfl]
  refine ⟨by simp, ?_, ?_, ?_, ?_⟩
  all_goals rw [hget]
  exacts [hblank.inputs, hblank.observers, hthawed]

/-- A new edge leads from a node that is not observed yet. -/
theorem get_addEdge (hne : node ≠ input) (hnew : input ∉ (g.get node).inputs)
    (hobservers : (g.get input).observers = []) (other : NodeId) :
    (g.addEdge node input).get other =
      { g.get other with
        inputs :=
          if node = other ∧ other.index < g.size then (g.get other).inputs ++ [input]
          else (g.get other).inputs
        observers :=
          if input = other ∧ other.index < g.size then [.node node]
          else (g.get other).observers } := by
  have hedge : g.isNewEdge node input = true := by simp [isNewEdge, hne, hnew]
  rw [addEdge, if_pos hedge, addObserver, get_modify, size_modify, get_modify]
  by_cases hself : node = other ∧ other.index < g.size
  · have hother : ¬ (input = other ∧ other.index < g.size) := fun hall =>
      hne (hself.1.trans hall.1.symm)
    simp only [if_pos hself, if_neg hother]
  · by_cases hinput : input = other ∧ other.index < g.size
    · have hempty : (g.get other).observers = [] := hinput.1 ▸ hobservers
      simp only [if_neg hself, if_pos hinput, hempty]
      rfl
    · simp only [if_neg hself, if_neg hinput]

theorem wired_addEdge {sources : List NodeId} (hnode : g.Wired node inputs observers rule)
    (hinput : g.Wired input sources [] source) (hne : node ≠ input) (hnew : input ∉ inputs) :
    (g.addEdge node input).Wired node (inputs ++ [input]) observers rule ∧
      (g.addEdge node input).Wired input sources [.node node] source ∧
      ∀ other inputs observers rule, g.Wired other inputs observers rule → other ≠ node →
        other ≠ input → (g.addEdge node input).Wired other inputs observers rule := by
  have hsize : g.size ≤ (g.addEdge node input).size := (size_addEdge g node input).symm.le
  have hget := get_addEdge hne (hnode.inputs ▸ hnew) hinput.observers
  refine ⟨?_, ?_, fun other inputs observers rule hother hself hsource => ?_⟩
  · refine hnode.of_get hsize ?_
    rw [hget, if_pos ⟨rfl, hnode.has⟩, if_neg fun hall => hne hall.1.symm, hnode.inputs,
      hnode.observers]
  · refine hinput.of_get hsize ?_
    rw [hget, if_neg fun hall => hne hall.1, if_pos ⟨rfl, hinput.has⟩, hinput.inputs]
  · refine hother.of_get hsize ?_
    rw [hget, if_neg fun hall => hself hall.1.symm, if_neg fun hall => hsource hall.1.symm,
      hother.inputs, hother.observers]

/-- A new node that follows a rule and depends on another one. -/
def attach (g : FlowGraph) (rule : Rule) (span : Span) (input : NodeId) : FlowGraph :=
  (g.add rule span).2.addEdge ⟨g.size⟩ input

theorem wired_attach (hinput : g.Wired input inputs [] source) (rule : Rule) (span : Span) :
    (g.attach rule span input).Wired ⟨g.size⟩ [input] [] rule ∧
      (g.attach rule span input).Wired input inputs [.node ⟨g.size⟩] source ∧
      ∀ other inputs observers kept, g.Wired other inputs observers kept → other ≠ input →
        (g.attach rule span input).Wired other inputs observers kept := by
  have hnew : (g.add rule span).2.Wired ⟨g.size⟩ [] [] rule := g.wired_push ⟨rfl, rfl⟩ rfl
  obtain ⟨hself, hsource, hothers⟩ := wired_addEdge hnew
    (hinput.push ⟨none, [], [], rule, false, span⟩) (ne_of_lt_size hinput.has).symm (by simp)
  refine ⟨hself, hsource, fun other inputs observers kept hother hinput => ?_⟩
  exact hothers other inputs observers kept (hother.push _) (ne_of_lt_size hother.has) hinput

theorem typeOf_addTyped_self (g : FlowGraph) (type : TypeId) (span : Span) :
    (g.addTyped type span).2.typeOf ⟨g.size⟩ = some type := by
  simp [addTyped, typeOf, get_push]

theorem typeOf_attach_self (g : FlowGraph) (rule : Rule) (span : Span) (input : NodeId) :
    (g.attach rule span input).typeOf ⟨g.size⟩ = none := by
  rw [attach, typeOf_addEdge, typeOf, add, get_push, if_pos rfl]

theorem typeOf_attach (h : node.index < g.size) (rule : Rule) (span : Span) (input : NodeId) :
    (g.attach rule span input).typeOf node = g.typeOf node := by
  rw [attach, typeOf_addEdge]
  exact typeOf_push_of_lt g node _ h

/-- A new node of the given type that follows a rule and depends on another one. -/
def follow (g : FlowGraph) (rule : Rule) (span : Span) (input : NodeId) (type : TypeId) :
    FlowGraph :=
  (g.attach rule span input).setType ⟨g.size⟩ (some type)

theorem typeOf_follow_self (hinput : g.Wired input inputs [] source) (rule : Rule) (span : Span)
    (type : TypeId) : (g.follow rule span input type).typeOf ⟨g.size⟩ = some type :=
  typeOf_setType_self (wired_attach hinput rule span).1.has _

theorem typeOf_follow (h : node.index < g.size) (rule : Rule) (span : Span) (input : NodeId)
    (type : TypeId) : (g.follow rule span input type).typeOf node = g.typeOf node := by
  rw [follow, typeOf_setType_of_ne (ne_of_lt_size h).symm, typeOf_attach h]

end FlowGraph

/-- A variable that depends on `nil` and on an array of what is read from it. -/
structure FlowGraph.ArrayCycle (g : FlowGraph) (nil var read array : NodeId) : Prop where
  var_wired : g.Wired var [nil, array] [.node read] .union
  read_wired : g.Wired read [var] [.node array] .union
  array_wired : g.Wired array [read] [.node var] .array
  distinct : [nil, var, read, array].Nodup
  typeOf_nil : g.typeOf nil = some .nil

namespace FlowGraph

variable {g : FlowGraph} {nil var read array node : NodeId} {type : TypeId}

namespace ArrayCycle

variable (h : g.ArrayCycle nil var read array)
include h

theorem apart : var ≠ read ∧ var ≠ array ∧ read ≠ array := by
  have hdistinct := h.distinct
  simp only [List.nodup_cons, List.mem_cons, not_or] at hdistinct
  exact ⟨hdistinct.2.1.1, hdistinct.2.1.2.1, hdistinct.2.2.1.1⟩

theorem setType (hnode : node ∈ [var, read, array]) (type : Option TypeId) :
    (g.setType node type).ArrayCycle nil var read array where
  var_wired := h.var_wired.setType node type
  read_wired := h.read_wired.setType node type
  array_wired := h.array_wired.setType node type
  distinct := h.distinct
  typeOf_nil := by
    have hne : node ≠ nil := fun heq => (List.nodup_cons.1 h.distinct).1 (heq ▸ hnode)
    rw [typeOf_setType_of_ne hne, h.typeOf_nil]

theorem inputTypes_var (htype : g.typeOf array = some type) : g.inputTypes var = [.nil, type] := by
  simp [inputTypes, h.var_wired.inputs, h.typeOf_nil, htype]

theorem inputTypes_read (htype : g.typeOf var = some type) : g.inputTypes read = [type] := by
  simp [inputTypes, h.read_wired.inputs, htype]

theorem inputTypes_array (htype : g.typeOf read = some type) : g.inputTypes array = [type] := by
  simp [inputTypes, h.array_wired.inputs, htype]

end ArrayCycle

end FlowGraph

namespace Infer

/-- A computation uses up its fuel. -/
def Exhausts {α : Type} (x : Infer α) (s : Session) : Prop :=
  ∃ s', x s = .error .outOfFuel s'

variable {s : Session} {node : NodeId} {inputs : List NodeId} {observers : List Observer}
  {rule : Rule} {types : List TypeId} {type : TypeId} {t : TypeTable}

/-- A node derives another type than it has. -/
structure Derives (s : Session) (node : NodeId) (observers : List Observer) (type : TypeId)
    (t : TypeTable) : Prop where
  observers : (s.flow.get node).observers = observers
  thawed : (s.flow.get node).frozen = false
  change? : Returns (change? node) s (some type) { s with types := t }

/-- A node that does not have a fixed type is looked at. -/
theorem change?_wired_returns (h : s.flow.Wired node inputs observers rule)
    (hrule : ∀ type, rule ≠ .pinned type) (hinputs : s.flow.inputTypes node = types)
    (hne : types ≠ []) (hknown : ∀ type ∈ types, s.types.Known type)
    (hderive : rule.derive types s.types = (type, t)) :
    Returns (change? node) s (if some type = s.flow.typeOf node then none else some type)
      { s with types := t } := by
  subst hinputs
  have hjoined : s.flow.joined node = s.flow.inputTypes node := by
    rw [joined, h.rule]
    cases rule with
    | pinned type => exact absurd rfl (hrule type)
    | _ => rfl
  have hrun : s.flow.derive node s.types = (some type, t) := by
    obtain ⟨first, rest, htypes⟩ := List.exists_cons_of_ne_nil hne
    rw [htypes] at hderive
    simp only [derive, htypes, h.rule]
    simp [Functor.map, StateT.map, Bind.bind, hderive, pure]
  have hbuild : Returns (build (s.flow.derive node)) s (some type) { s with types := t } := by
    simp [Returns, build, hrun]
  exact .get_bind ((forM_known_returns (hjoined ▸ hknown)).bind (hbuild.bind (.pure _ _)))

theorem Derives.of_wired (h : s.flow.Wired node inputs observers rule)
    (hrule : ∀ type, rule ≠ .pinned type) (hinputs : s.flow.inputTypes node = types)
    (hne : types ≠ []) (hknown : ∀ type ∈ types, s.types.Known type)
    (hderive : rule.derive types s.types = (type, t)) (hchanged : s.typeOf node ≠ some type) :
    Derives s node observers type t := by
  have hdiffers : some type ≠ s.flow.typeOf node := hchanged.symm
  have hchange := change?_wired_returns h hrule hinputs hne hknown hderive
  rw [if_neg hdiffers] at hchange
  exact ⟨h.observers, h.thawed, hchange⟩

/-- A node that derives another type than it has wakes its observers. -/
theorem Derives.propagate_eq (h : Derives s node observers type t) (engine : Engine)
    (budget : Nat) :
    propagate engine (budget + 1) [.node node] s
      = propagate engine budget observers
          { s with types := t, flow := s.flow.setType node type } := by
  have hrun := (wake_of_change h.thawed h.change? engine).bind_eq
    (f := fun woken => propagate engine budget (woken ++ []))
  rw [List.append_nil, h.observers] at hrun
  exact hrun

end Infer

open Infer

/-! ## Around the cycle -/

namespace Session

/-- The types of the variable, of what is read from it and of the array on a cycle. -/
structure OnCycle (s : Session) (nil var read array : NodeId) (x y z : TypeId) : Prop where
  cycle : s.flow.ArrayCycle nil var read array
  typeOf_var : s.typeOf var = some x
  typeOf_read : s.typeOf read = some y
  typeOf_array : s.typeOf array = some z

variable {s : Session} {nil var read array : NodeId} {item v u x y z : TypeId}

namespace OnCycle

theorem of_flow (h : s.OnCycle nil var read array x y z) (s' : Session) (hflow : s'.flow = s.flow) :
    s'.OnCycle nil var read array x y z := by
  obtain ⟨hcycle, hvar, hread, harray⟩ := h
  rw [typeOf, ← hflow] at hvar hread harray
  exact ⟨hflow ▸ hcycle, hvar, hread, harray⟩

section

variable (h : s.OnCycle nil var read array x y z) (t : TypeTable) (type : TypeId)
include h

theorem setVar : OnCycle { s with types := t, flow := s.flow.setType var type }
      nil var read array type y z where
  cycle := h.cycle.setType (by simp) _
  typeOf_var := typeOf_setType_self h.cycle.var_wired.has _
  typeOf_read := (typeOf_setType_of_ne h.cycle.apart.1 _).trans h.typeOf_read
  typeOf_array := (typeOf_setType_of_ne h.cycle.apart.2.1 _).trans h.typeOf_array

theorem setRead : OnCycle { s with types := t, flow := s.flow.setType read type }
      nil var read array x type z where
  cycle := h.cycle.setType (by simp) _
  typeOf_var := (typeOf_setType_of_ne h.cycle.apart.1.symm _).trans h.typeOf_var
  typeOf_read := typeOf_setType_self h.cycle.read_wired.has _
  typeOf_array := (typeOf_setType_of_ne h.cycle.apart.2.2 _).trans h.typeOf_array

theorem setArray : OnCycle { s with types := t, flow := s.flow.setType array type }
      nil var read array x y type where
  cycle := h.cycle.setType (by simp) _
  typeOf_var := (typeOf_setType_of_ne h.cycle.apart.2.1.symm _).trans h.typeOf_var
  typeOf_read := (typeOf_setType_of_ne h.cycle.apart.2.2.symm _).trans h.typeOf_read
  typeOf_array := typeOf_setType_self h.cycle.array_wired.has _

end

/-- The variable has not followed the array yet. -/
theorem derives_var (h : s.OnCycle nil var read array item item v)
    (hknown : ∀ type ∈ [.nil, v], s.types.Known type)
    (hnests : (unionOf [.nil, v] s.types).2.Nests item v
      (unionOf [.nil, v] s.types).1) :
    Derives s var [.node read] (unionOf [.nil, v] s.types).1
      (unionOf [.nil, v] s.types).2 := by
  refine .of_wired h.cycle.var_wired (by simp) (h.cycle.inputTypes_var h.typeOf_array) (by simp)
    hknown rfl ?_
  rw [h.typeOf_var]
  exact fun heq => hnests.ne_item (Option.some.inj heq).symm

/-- What is read has not followed the variable yet. -/
theorem derives_read (h : s.OnCycle nil var read array u item v) (hnests : s.types.Nests item v u) :
    Derives s read [.node array] u s.types := by
  refine .of_wired h.cycle.read_wired (by simp) (h.cycle.inputTypes_read h.typeOf_var) (by simp)
    (by simpa using hnests.known) hnests.unionOf_self ?_
  rw [h.typeOf_read]
  exact fun heq => hnests.ne_item (Option.some.inj heq).symm

/-- The array has not followed what is read yet. -/
theorem derives_array (h : s.OnCycle nil var read array u u v) (hnests : s.types.Nests item v u) :
    Derives s array [.node var] (arrayOf u s.types).1
      (arrayOf u s.types).2 := by
  refine .of_wired h.cycle.array_wired (by simp) (h.cycle.inputTypes_array h.typeOf_read) (by simp)
    (by simpa using hnests.known) ?_ ?_
  · simp only [Rule.derive, Bind.bind, StateT.bind, hnests.unionOf_self]
    rfl
  · rw [h.typeOf_array]
    exact fun heq => hnests.arrayOf_ne (Option.some.inj heq).symm

end OnCycle

/-- A propagation that is somewhere on an array cycle: one of the nodes has not followed its input
yet, and is looked at next. -/
inductive Circles (s : Session) : List Observer → Prop
  | var {nil var read array : NodeId} {item v : TypeId}
      (h : s.OnCycle nil var read array item item v)
      (hknown : ∀ type ∈ [.nil, v], s.types.Known type)
      (hnests : (unionOf [.nil, v] s.types).2.Nests item v
        (unionOf [.nil, v] s.types).1) :
      Circles s [.node var]
  | read {nil var read array : NodeId} {item v u : TypeId}
      (h : s.OnCycle nil var read array u item v)
      (hnests : s.types.Nests item v u) :
      Circles s [.node read]
  | array {nil var read array : NodeId} {item v u : TypeId}
      (h : s.OnCycle nil var read array u u v)
      (hnests : s.types.Nests item v u) :
      Circles s [.node array]

/-- Looking at the next node leads on around the cycle. -/
theorem Circles.step (h : s.Circles waiting) :
    ∃ s' waiting', s'.Circles waiting' ∧ ∀ engine budget,
      propagate engine (budget + 1) waiting s = propagate engine budget waiting' s' := by
  cases h with
  | var h hknown hnests =>
    exact ⟨_, _, .read (h.setVar _ _) hnests, (h.derives_var hknown hnests).propagate_eq⟩
  | read h hnests =>
    exact ⟨_, _, .array (h.setRead _ _) hnests, (h.derives_read hnests).propagate_eq⟩
  | array h hnests =>
    obtain ⟨hextends, harray⟩ := arrayOf_extends hnests.founded _
    have hknown := And.intro (hextends.known hnests.founded.known_nil) (known_of_find? harray)
    refine ⟨_, _, .var (h.setArray _ _) ?_ hnests.next, (h.derives_array hnests).propagate_eq⟩
    simpa using hknown

/-- The engine looks at as many nodes as it may, and is not done. -/
theorem Circles.exhausts (h : s.Circles waiting) (engine : Engine) (budget : Nat) :
    Exhausts (propagate engine budget waiting) s := by
  induction budget generalizing s waiting with
  | zero => cases h <;> exact ⟨s, rfl⟩
  | succ budget ih =>
    obtain ⟨s', waiting', hnext, hstep⟩ := h.step
    rw [Exhausts, hstep]
    exact ih hnext

end Session

end Callsite
