import Callsite.Proofs.Run.Move

/-!
# Reading a changed session

What the nodes, calls and instances are after each kind of change, in terms of what
they were before.
-/

namespace Callsite

open Session FlowNode

variable {α β : Type} {fresh : FlowNode} {inputs : List NodeId} {signature : List TypeId}

theorem getD_modify [Inhabited α] (a : Array α) (i n : Nat) (f : α → α) :
    (a.modify i f)[n]?.getD default
      = if i = n ∧ n < a.size then f (a[n]?.getD default) else a[n]?.getD default := by
  by_cases hn : n < a.size
  · by_cases h : i = n
    · subst h
      simp [hn, Array.getElem_modify]
    · simp [h, Array.getElem?_modify]
  · simp [hn]

/-! ## Nodes -/

namespace FlowGraph

variable (g : FlowGraph) (id node input : NodeId)

@[simp] theorem size_modify (f : FlowNode → FlowNode) : (g.modify id f).size = g.size := by
  simp [modify, size]

theorem get_modify (f : FlowNode → FlowNode) :
    (g.modify id f).get node
      = if id = node ∧ node.index < g.size then f (g.get node) else g.get node := by
  obtain ⟨i⟩ := id
  obtain ⟨n⟩ := node
  simp [modify, get, size, getD_modify]

theorem get_of_not_lt (h : ¬ node.index < g.size) : g.get node = default := by
  have hnone : g.nodes[node.index]? = none := by
    rw [Array.getElem?_eq_none_iff]
    exact Nat.le_of_not_lt h
  simp [get, hnone]

/-- A field that a change leaves alone. -/
theorem modify_field (field : FlowNode → α) {f : FlowNode → FlowNode}
    (h : ∀ n, field (f n) = field n) : field ((g.modify id f).get node) = field (g.get node) := by
  rw [get_modify]
  split
  · exact h _
  · rfl

section

variable (type : Option TypeId)

@[simp] theorem size_setType : (g.setType id type).size = g.size :=
  size_modify g id _

@[simp] theorem inputs_setType : ((g.setType id type).get node).inputs = (g.get node).inputs :=
  modify_field g id node inputs fun _ => rfl

@[simp] theorem observers_setType :
    ((g.setType id type).get node).observers = (g.get node).observers :=
  modify_field g id node observers fun _ => rfl

@[simp] theorem rule_setType : ((g.setType id type).get node).rule = (g.get node).rule :=
  modify_field g id node rule fun _ => rfl

@[simp] theorem frozen_setType : ((g.setType id type).get node).frozen = (g.get node).frozen :=
  modify_field g id node frozen fun _ => rfl

theorem typeOf_setType : (g.setType id type).typeOf node
      = if id = node ∧ node.index < g.size then type else g.typeOf node := by
  rw [typeOf, setType, get_modify]
  split
  · rfl
  · rfl

end

theorem typeOf_setType_self {g : FlowGraph} {node : NodeId} (h : node.index < g.size)
    (type : Option TypeId) : (g.setType node type).typeOf node = type := by
  rw [typeOf_setType, if_pos ⟨rfl, h⟩]

theorem typeOf_setType_of_ne {g : FlowGraph} {node other : NodeId} (h : other ≠ node)
    (type : Option TypeId) : (g.setType other type).typeOf node = g.typeOf node := by
  rw [typeOf_setType, if_neg fun hall => h hall.1]

section

variable (frozen : Bool)

@[simp] theorem size_setFrozen : (g.setFrozen id frozen).size = g.size :=
  size_modify g id _

@[simp] theorem inputs_setFrozen :
    ((g.setFrozen id frozen).get node).inputs = (g.get node).inputs :=
  modify_field g id node inputs fun _ => rfl

@[simp] theorem observers_setFrozen :
    ((g.setFrozen id frozen).get node).observers = (g.get node).observers :=
  modify_field g id node observers fun _ => rfl

@[simp] theorem rule_setFrozen : ((g.setFrozen id frozen).get node).rule = (g.get node).rule :=
  modify_field g id node rule fun _ => rfl

theorem frozen_setFrozen : ((g.setFrozen id frozen).get node).frozen
      = if id = node ∧ node.index < g.size then frozen else (g.get node).frozen := by
  rw [setFrozen, get_modify]
  split
  · rfl
  · rfl

@[simp] theorem typeOf_setFrozen : (g.setFrozen id frozen).typeOf node = g.typeOf node :=
  modify_field g id node type fun _ => rfl

end

section

variable (observer : Observer)

@[simp] theorem size_addObserver : (g.addObserver id observer).size = g.size :=
  size_modify g id _

@[simp] theorem inputs_addObserver :
    ((g.addObserver id observer).get node).inputs = (g.get node).inputs :=
  modify_field g id node inputs fun _ => by split <;> rfl

@[simp] theorem rule_addObserver :
    ((g.addObserver id observer).get node).rule = (g.get node).rule :=
  modify_field g id node rule fun _ => by split <;> rfl

@[simp] theorem frozen_addObserver :
    ((g.addObserver id observer).get node).frozen = (g.get node).frozen :=
  modify_field g id node frozen fun _ => by split <;> rfl

@[simp] theorem typeOf_addObserver : (g.addObserver id observer).typeOf node = g.typeOf node :=
  modify_field g id node type fun _ => by split <;> rfl

theorem mem_observers_addObserver (other : Observer) :
    other ∈ ((g.addObserver id observer).get node).observers ↔
      other ∈ (g.get node).observers ∨
        (other = observer ∧ id = node ∧ node.index < g.size) := by
  rw [addObserver, get_modify]
  split
  next h =>
    split
    next hcontains =>
      have hmem : observer ∈ (g.get node).observers := by simpa using hcontains
      constructor
      · exact Or.inl
      · rintro (hother | ⟨rfl, -, -⟩)
        · exact hother
        · exact hmem
    next => simp [h]
  next h => simp [h]

@[simp] theorem size_removeObserver : (g.removeObserver id observer).size = g.size :=
  size_modify g id _

@[simp] theorem inputs_removeObserver :
    ((g.removeObserver id observer).get node).inputs = (g.get node).inputs :=
  modify_field g id node inputs fun _ => rfl

@[simp] theorem rule_removeObserver :
    ((g.removeObserver id observer).get node).rule = (g.get node).rule :=
  modify_field g id node rule fun _ => rfl

@[simp] theorem frozen_removeObserver :
    ((g.removeObserver id observer).get node).frozen = (g.get node).frozen :=
  modify_field g id node frozen fun _ => rfl

@[simp] theorem typeOf_removeObserver :
    (g.removeObserver id observer).typeOf node = g.typeOf node :=
  modify_field g id node type fun _ => rfl

theorem mem_observers_removeObserver (other : Observer) :
    other ∈ ((g.removeObserver id observer).get node).observers ↔
      other ∈ (g.get node).observers ∧ ¬ (other = observer ∧ id = node) := by
  rw [removeObserver, get_modify]
  split
  next h => simp [h]
  next h =>
    by_cases hid : id = node
    · rw [get_of_not_lt g node fun hn => h ⟨hid, hn⟩]
      simp [default]
    · simp [hid]

end

@[simp] theorem size_addEdge : (g.addEdge id input).size = g.size := by
  rw [addEdge]
  split <;> simp

@[simp] theorem rule_addEdge : ((g.addEdge id input).get node).rule = (g.get node).rule := by
  rw [addEdge]
  split
  · rw [rule_addObserver]
    exact modify_field g id node rule fun _ => rfl
  · rfl

@[simp] theorem frozen_addEdge : ((g.addEdge id input).get node).frozen = (g.get node).frozen := by
  rw [addEdge]
  split
  · rw [frozen_addObserver]
    exact modify_field g id node frozen fun _ => rfl
  · rfl

@[simp] theorem typeOf_addEdge : (g.addEdge id input).typeOf node = g.typeOf node := by
  rw [addEdge]
  split
  · rw [typeOf_addObserver]
    exact modify_field g id node type fun _ => rfl
  · rfl

/-- The inputs of a node with a new edge. -/
theorem inputs_addEdge :
    ((g.addEdge id input).get node).inputs
      = if id = node ∧ node.index < g.size ∧ id ≠ input ∧ input ∉ (g.get node).inputs then
          (g.get node).inputs ++ [input]
        else (g.get node).inputs := by
  by_cases hnew : g.isNewEdge id input = true
  · rw [addEdge, if_pos hnew, inputs_addObserver, get_modify]
    simp only [isNewEdge, Bool.and_eq_true, bne_iff_ne, ne_eq, Bool.not_eq_true',
      List.contains_eq_mem, decide_eq_false_iff_not] at hnew
    by_cases h : id = node ∧ node.index < g.size
    · obtain ⟨rfl, hn⟩ := h
      simp [hn, hnew.1, hnew.2]
    · rw [if_neg h, if_neg fun hall => h ⟨hall.1, hall.2.1⟩]
  · rw [addEdge, if_neg hnew, if_neg]
    rintro ⟨rfl, -, hne, hmem⟩
    exact hnew (by simp [isNewEdge, hne, hmem])

theorem mem_observers_addEdge (other : Observer) :
    other ∈ ((g.addEdge id input).get node).observers ↔
      other ∈ (g.get node).observers ∨
        (g.isNewEdge id input = true ∧ other = .node id ∧ input = node ∧ node.index < g.size) := by
  by_cases hnew : g.isNewEdge id input = true
  · have hsame : ((g.modify id fun n => { n with inputs := n.inputs ++ [input] }).get
        node).observers = (g.get node).observers :=
      modify_field g id node observers fun _ => rfl
    rw [addEdge, if_pos hnew, mem_observers_addObserver, hsame]
    simp [hnew]
  · rw [addEdge, if_neg hnew]
    simp [hnew]

@[simp] theorem size_removeEdge : (g.removeEdge id input).size = g.size := by
  simp [removeEdge]

@[simp] theorem rule_removeEdge : ((g.removeEdge id input).get node).rule = (g.get node).rule := by
  rw [removeEdge, rule_removeObserver]
  exact modify_field g id node rule fun _ => rfl

@[simp] theorem frozen_removeEdge :
    ((g.removeEdge id input).get node).frozen = (g.get node).frozen := by
  rw [removeEdge, frozen_removeObserver]
  exact modify_field g id node frozen fun _ => rfl

@[simp] theorem typeOf_removeEdge : (g.removeEdge id input).typeOf node = g.typeOf node := by
  rw [removeEdge, typeOf_removeObserver]
  exact modify_field g id node type fun _ => rfl

/-- The inputs of a node without an edge. -/
theorem inputs_removeEdge :
    ((g.removeEdge id input).get node).inputs
      = if id = node then (g.get node).inputs.filter (· != input) else (g.get node).inputs := by
  rw [removeEdge, inputs_removeObserver, get_modify]
  by_cases hid : id = node
  · by_cases hn : node.index < g.size
    · simp [hid, hn]
    · simp [hid, hn, get_of_not_lt g node hn, default]
  · simp [hid]

theorem mem_observers_removeEdge (other : Observer) :
    other ∈ ((g.removeEdge id input).get node).observers ↔
      other ∈ (g.get node).observers ∧ ¬ (other = .node id ∧ input = node) := by
  have hsame : ((g.modify id fun n => { n with inputs := n.inputs.filter (· != input) }).get
      node).observers = (g.get node).observers :=
    modify_field g id node observers fun _ => rfl
  rw [removeEdge, mem_observers_removeObserver, hsame]

/-! ### New nodes -/

theorem get_push (fresh : FlowNode) :
    (⟨g.nodes.push fresh⟩ : FlowGraph).get node
      = if node.index = g.size then fresh else g.get node := by
  rw [get, Array.getElem?_push, size]
  split
  · rfl
  · rfl

@[simp] theorem size_push (fresh : FlowNode) :
    (⟨g.nodes.push fresh⟩ : FlowGraph).size = g.size + 1 := by
  simp [size]

/-- A blank node has no inputs and no observers, like a node that is not there. -/
theorem inputs_push (h : fresh.IsBlank) :
    ((⟨g.nodes.push fresh⟩ : FlowGraph).get node).inputs = (g.get node).inputs := by
  rw [get_push]
  split
  next hnode => rw [g.get_of_not_lt node (by omega), h.inputs]; rfl
  next => rfl

theorem observers_push (h : fresh.IsBlank) :
    ((⟨g.nodes.push fresh⟩ : FlowGraph).get node).observers = (g.get node).observers := by
  rw [get_push]
  split
  next hnode => rw [g.get_of_not_lt node (by omega), h.observers]; rfl
  next => rfl

/-- The type of a node, and whether it is frozen. -/
def held (node : NodeId) : Option TypeId × Bool :=
  (g.typeOf node, (g.get node).frozen)

theorem held_push_of_lt (fresh : FlowNode) (h : node.index < g.size) :
    (⟨g.nodes.push fresh⟩ : FlowGraph).held node = g.held node := by
  rw [held, typeOf, get_push, if_neg (h.ne)]
  rfl

theorem typeOf_push_of_lt (fresh : FlowNode) (h : node.index < g.size) :
    (⟨g.nodes.push fresh⟩ : FlowGraph).typeOf node = g.typeOf node :=
  congrArg Prod.fst (g.held_push_of_lt node fresh h)

/-- Only nodes that are there can be frozen. -/
theorem lt_size_of_frozen {g : FlowGraph} {node : NodeId} (h : (g.get node).frozen = true) :
    node.index < g.size := by
  by_contra hnot
  rw [get_of_not_lt g node hnot] at h
  exact absurd h (by decide)

/-! ### Several edges -/

/-- What every single change preserves, several preserve. -/
theorem foldl_preserves {P : FlowGraph → Prop} {f : FlowGraph → α → FlowGraph} (l : List α)
    (hf : ∀ g, ∀ a ∈ l, P g → P (f g a)) (h : P g) : P (l.foldl f g) := by
  induction l generalizing g with
  | nil => exact h
  | cons a l ih =>
    refine ih _ (fun g' a' ha' => hf g' a' (List.mem_cons_of_mem a ha')) ?_
    exact hf g a List.mem_cons_self h

/-- A part of the graph that no single change touches, several do not touch. -/
theorem foldl_field {f : FlowGraph → α → FlowGraph} (l : List α) (field : FlowGraph → β)
    (hf : ∀ g a, field (f g a) = field g) : field (l.foldl f g) = field g := by
  induction l generalizing g with
  | nil => rfl
  | cons a l ih => rw [List.foldl_cons, ih, hf]

/-- Append the nodes that are not there yet, in order. -/
def joinNew (nodes more : List NodeId) : List NodeId :=
  more.foldl (fun nodes node => if node ∈ nodes then nodes else nodes ++ [node]) nodes

theorem mem_joinNew {nodes more : List NodeId} :
    node ∈ joinNew nodes more ↔ node ∈ nodes ∨ node ∈ more := by
  induction more generalizing nodes with
  | nil => simp [joinNew]
  | cons first rest ih =>
    have hcons : joinNew nodes (first :: rest)
        = joinNew (if first ∈ nodes then nodes else nodes ++ [first]) rest := rfl
    rw [hcons, ih, List.mem_cons]
    split
    next hmem =>
      constructor
      · rintro (h | h)
        · exact Or.inl h
        · exact Or.inr (Or.inr h)
      · rintro (h | rfl | h)
        · exact Or.inl h
        · exact Or.inl hmem
        · exact Or.inr h
    next =>
      rw [List.mem_append, List.mem_singleton]
      tauto

theorem inputs_addEdges (hid : id.index < g.size) (hne : id ∉ inputs) :
    ((inputs.foldl (fun g input => g.addEdge id input) g).get id).inputs
      = joinNew (g.get id).inputs inputs := by
  induction inputs generalizing g with
  | nil => rfl
  | cons first rest ih =>
    have hfirst : id ≠ first := fun h => hne (h ▸ List.mem_cons_self)
    have hrest : id ∉ rest := fun h => hne (List.mem_cons_of_mem first h)
    have hcons : joinNew (g.get id).inputs (first :: rest)
        = joinNew (if first ∈ (g.get id).inputs then (g.get id).inputs
            else (g.get id).inputs ++ [first]) rest := rfl
    rw [List.foldl_cons, ih _ (by simpa using hid) hrest, inputs_addEdge, hcons]
    by_cases hmem : first ∈ (g.get id).inputs
    · simp [hmem]
    · simp [hmem, hid, hfirst]

theorem inputs_addEdges_of_ne {node : NodeId} (inputs : List NodeId) (h : id ≠ node) :
    ((inputs.foldl (fun g input => g.addEdge id input) g).get node).inputs
      = (g.get node).inputs :=
  foldl_field g inputs (fun g => (g.get node).inputs) fun _ _ => by simp [inputs_addEdge, h]

theorem inputs_removeEdges :
    ((inputs.foldl (fun g input => g.removeEdge id input) g).get node).inputs
      = if id = node then (g.get node).inputs.filter (· ∉ inputs) else (g.get node).inputs := by
  induction inputs generalizing g with
  | nil => simp
  | cons first rest ih =>
    rw [List.foldl_cons, ih, inputs_removeEdge]
    split
    · rw [List.filter_filter]
      simp only [List.mem_cons, not_or, Bool.decide_and, bne, Bool.and_comm, decide_not,
        beq_eq_decide]
    · rfl

/-! ### Observers -/

@[simp] theorem call_mem_observers_addEdge (call : CallId) :
    .call call ∈ ((g.addEdge id input).get node).observers ↔
      .call call ∈ (g.get node).observers := by
  simp [mem_observers_addEdge]

@[simp] theorem call_mem_observers_removeEdge (call : CallId) :
    .call call ∈ ((g.removeEdge id input).get node).observers ↔
      .call call ∈ (g.get node).observers := by
  simp [mem_observers_removeEdge]

theorem mem_observers_addObservers (observer other : Observer) :
    other ∈ ((inputs.foldl (fun g input => g.addObserver input observer) g).get node).observers ↔
      other ∈ (g.get node).observers ∨
        (other = observer ∧ node ∈ inputs ∧ node.index < g.size) := by
  induction inputs generalizing g with
  | nil => simp
  | cons first rest ih =>
    rw [List.foldl_cons, ih, mem_observers_addObserver, size_addObserver, List.mem_cons]
    constructor
    · rintro ((h | ⟨ho, rfl, hlt⟩) | ⟨ho, hmem, hlt⟩)
      · exact Or.inl h
      · exact Or.inr ⟨ho, Or.inl rfl, hlt⟩
      · exact Or.inr ⟨ho, Or.inr hmem, hlt⟩
    · rintro (h | ⟨ho, rfl | hmem, hlt⟩)
      · exact Or.inl (Or.inl h)
      · exact Or.inl (Or.inr ⟨ho, rfl, hlt⟩)
      · exact Or.inr ⟨ho, hmem, hlt⟩

end FlowGraph

/-! ## Calls and instances -/

namespace Session

variable (s : Session) (call other : CallId) (id changed : InstanceId)

theorem call_changeCall (f : CallSite → CallSite) :
    (s.changeCall call f).call other
      = if call = other ∧ s.HasCall other then f (s.call other) else s.call other := by
  obtain ⟨i⟩ := call
  obtain ⟨n⟩ := other
  simp [call, HasCall, getD_modify]

theorem call_of_not_hasCall {call : CallId} (h : ¬ s.HasCall call) : s.call call = default := by
  rw [Session.call, Array.getElem?_eq_none (Nat.le_of_not_lt h)]
  rfl

/-- A part of calls that a change leaves alone. -/
theorem changeCall_field (field : CallSite → α) {f : CallSite → CallSite}
    (h : ∀ site, field (f site) = field site) :
    field ((s.changeCall call f).call other) = field (s.call other) := by
  rw [call_changeCall]
  split
  · exact h _
  · rfl

section

variable (f : CallSite → CallSite)

theorem call_changeCall_self {call : CallId} (h : s.HasCall call) :
    (s.changeCall call f).call call = f (s.call call) := by
  rw [call_changeCall, if_pos ⟨rfl, h⟩]

theorem call_changeCall_of_ne {call other : CallId} (h : call ≠ other) :
    (s.changeCall call f).call other = s.call other := by
  rw [call_changeCall, if_neg fun hall => h hall.1]

@[simp] theorem hasCall_changeCall : (s.changeCall call f).HasCall other ↔ s.HasCall other := by
  simp [HasCall]

end

theorem call_reopened {call : CallId} (h : s.HasCall call) (signature : List TypeId) :
    (s.reopened call signature).call call = (s.call call).opened signature :=
  s.call_changeCall_self _ h

theorem targets_resolvedTo {call : CallId} (targets : List InstanceId) (h : s.HasCall call) :
    ((s.resolvedTo call targets).call call).targets = some targets :=
  congrArg CallSite.targets
    (s.call_changeCall_self (fun site => { site with targets := some targets }) h)

section

variable (site : CallSite) (span : Span) (observed : List NodeId)

theorem call_withCall : (s.withCall site span observed).call other
      = if other.index = s.calls.size then site else s.call other := by
  rw [call, withCall_calls, Array.getElem?_push]
  split
  · rfl
  · rfl

theorem hasCall_withCall : (s.withCall site span observed).HasCall other ↔
      s.HasCall other ∨ other.index = s.calls.size := by
  rw [HasCall, HasCall, withCall_calls, Array.size_push]
  omega

end

theorem instanceAt_changeInstance (f : Instance → Instance) :
    (s.changeInstance changed f).instanceAt id
      = if changed = id ∧ s.HasInstance id then f (s.instanceAt id) else s.instanceAt id := by
  obtain ⟨i⟩ := changed
  obtain ⟨n⟩ := id
  simp [instanceAt, HasInstance, getD_modify]

@[simp] theorem hasInstance_changeInstance (f : Instance → Instance) :
    (s.changeInstance changed f).HasInstance id ↔ s.HasInstance id := by
  simp [HasInstance]

theorem instanceAt_withInstance (inst : Instance) :
    (s.withInstance inst).instanceAt id
      = if id.index = s.instances.size then inst else s.instanceAt id := by
  rw [instanceAt, withInstance_instances, Array.getElem?_push]
  split
  · rfl
  · rfl

theorem hasInstance_withInstance (inst : Instance) :
    (s.withInstance inst).HasInstance id ↔
      s.HasInstance id ∨ id.index = s.instances.size := by
  rw [HasInstance, HasInstance, withInstance_instances, Array.size_push]
  omega

theorem scope_withScope (sc : Scope) (scope : ScopeId) :
    (s.withScope sc).scope scope
      = if scope.index = s.scopes.size then sc else s.scope scope := by
  rw [Session.scope, withScope_scopes, Array.getElem?_push]
  split
  · rfl
  · rfl

theorem scope_withVar (scope other : ScopeId) (name : String) (node : NodeId) :
    (s.withVar scope name node).scope other
      = if scope = other ∧ other.index < s.scopes.size then
          { s.scope other with vars := (s.scope other).vars.insert name node }
        else s.scope other := by
  obtain ⟨i⟩ := scope
  obtain ⟨n⟩ := other
  simp [scope, getD_modify]

end Session

theorem NameMap.mem_insert {m : NameMap α} {name : String} {value : α} {entry : String × α}
    (h : entry ∈ (m.insert name value).entries) : entry = (name, value) ∨ entry ∈ m.entries := by
  obtain ⟨entries⟩ := m
  simp only [insert] at h
  induction entries with
  | nil => exact Or.inl (List.mem_singleton.1 h)
  | cons first rest ih =>
    rw [insertEntry] at h
    split at h
    · rcases List.mem_cons.1 h with rfl | hrest
      · exact Or.inl rfl
      · exact Or.inr (List.mem_cons_of_mem _ hrest)
    · split at h
      · exact List.mem_cons.1 h
      · rcases List.mem_cons.1 h with rfl | hrest
        · exact Or.inr List.mem_cons_self
        · exact (ih hrest).imp_right (List.mem_cons_of_mem _)

/-! ## Types of inputs -/

theorem mapM_eq_none_iff {f : α → Option β} {l : List α} :
    l.mapM f = none ↔ ∃ a ∈ l, f a = none := by
  induction l with
  | nil => simp
  | cons a l ih =>
    rw [List.mapM_cons]
    cases ha : f a with
    | none => simp [ha]
    | some b =>
      cases hl : l.mapM f with
      | none => simpa [ha, hl] using ih.1 hl
      | some bs =>
        have hsome : ¬ ∃ a ∈ l, f a = none := fun h => by simp [ih.2 h] at hl
        simpa [ha] using hsome

theorem getElem?_of_mapM {f : α → Option β} {l : List α} {bs : List β} (h : l.mapM f = some bs)
    (i : Nat) : bs[i]? = l[i]?.bind f := by
  induction l generalizing bs i with
  | nil =>
    obtain rfl : bs = [] := by simpa using h.symm
    simp
  | cons a l ih =>
    cases ha : f a with
    | none => simp [ha] at h
    | some b =>
      cases hl : l.mapM f with
      | none => simp [ha, hl] at h
      | some rest =>
        obtain rfl : b :: rest = bs := by simpa [ha, hl] using h
        cases i with
        | zero => simp [ha]
        | succ i => simpa using ih hl i

theorem mapM_option_congr {f g : α → Option β} {l : List α} (h : ∀ a ∈ l, f a = g a) :
    l.mapM f = l.mapM g := by
  induction l with
  | nil => rfl
  | cons a l ih =>
    rw [List.mapM_cons, List.mapM_cons, h a List.mem_cons_self, ih (List.forall_mem_cons.1 h).2]

namespace Session

variable {s s' : Session} {call : CallId}

/-- A call whose inputs have the types they had. -/
theorem inputTypes?_congr (hinputs : (s'.call call).inputs = (s.call call).inputs)
    (htypes : ∀ input ∈ (s.call call).inputs, s'.typeOf input = s.typeOf input) :
    s'.inputTypes? call = s.inputTypes? call := by
  rw [inputTypes?, inputTypes?, hinputs]
  exact mapM_option_congr htypes

theorem inputTypes?_ne_none_iff :
    s.inputTypes? call ≠ none ↔ ∀ input ∈ (s.call call).inputs, s.typeOf input ≠ none := by
  rw [inputTypes?, ne_eq, mapM_eq_none_iff]
  push Not
  rfl

theorem typeOf_receiver {receiver : NodeId} (h : s.inputTypes? call = some signature)
    (hreceiver : (s.call call).receiver = some receiver) :
    signature[(s.call call).args.length]? = s.typeOf receiver := by
  rw [getElem?_of_mapM h, CallSite.inputs, CallSite.argNodes, hreceiver]
  simp

/-- A call that is signed for the types of its inputs is resolved for that of its receiver. -/
theorem resolvedType?_eq_typeOf {receiver : NodeId} (htyped : s.inputTypes? call ≠ none)
    (hsigned : (s.call call).signature = s.inputTypes? call)
    (hreceiver : (s.call call).receiver = some receiver) :
    s.resolvedType? call = s.typeOf receiver := by
  obtain ⟨signature, hsignature⟩ := Option.ne_none_iff_exists'.1 htyped
  rw [resolvedType?, hsigned, hsignature, hreceiver]
  exact typeOf_receiver hsignature hreceiver

theorem typeOf_arg {i : Nat} {arg : Argument} (h : s.inputTypes? call = some signature)
    (harg : (s.call call).args[i]? = some arg) : signature[i]? = s.typeOf arg.node := by
  have hlt := (List.getElem?_eq_some_iff.1 harg).1
  rw [getElem?_of_mapM h, CallSite.inputs, List.append_assoc, CallSite.argNodes,
    List.getElem?_append_left (by rwa [List.length_map]), List.getElem?_map, harg]
  rfl

end Session

end Callsite
