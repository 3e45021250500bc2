import Callsite.Types.Derived

/-!
# The flow graph

Every expression, variable, parameter and result has a node.  A node depends on
other nodes and derives its type from theirs; observers of a node are looked at
again when its type changes.  This module stores the edges and derives types,
propagation is left to the engine, which also knows the calls.
-/

namespace Callsite

/-- What is looked at again when the type of a node changes. -/
inductive Observer where
  | node (id : NodeId)
  | call (id : CallId)
  deriving DecidableEq, Repr, Inhabited

/-- How the type of a node follows from the types it depends on. -/
inductive Rule where
  | union
  /-- A fixed type, as soon as one of them is known. -/
  | pinned (type : TypeId)
  | metaclass
  | array
  /-- A function with fixed parameters that returns their union. -/
  | function (params : List TypeId)
  deriving DecidableEq, Repr, Inhabited

/-- A node with its type, if it has one yet. -/
structure FlowNode where
  type : Option TypeId
  /-- The nodes the type is derived from, in the order of binding. -/
  inputs : List NodeId
  observers : List Observer
  rule : Rule
  frozen : Bool
  span : Span
  deriving DecidableEq, Repr

instance : Inhabited FlowNode := ⟨⟨none, [], [], .union, false, .absent⟩⟩

/-- All nodes, by their numbers. -/
structure FlowGraph where
  nodes : Array FlowNode
  deriving Inhabited

namespace FlowGraph

def empty : FlowGraph := ⟨#[]⟩

def size (g : FlowGraph) : Nat :=
  g.nodes.size

/-- The node of a number; a blank one if there is none. -/
def get (g : FlowGraph) (id : NodeId) : FlowNode :=
  g.nodes[id.index]?.getD default

def typeOf (g : FlowGraph) (id : NodeId) : Option TypeId :=
  (g.get id).type

def modify (g : FlowGraph) (id : NodeId) (f : FlowNode → FlowNode) : FlowGraph :=
  ⟨g.nodes.modify id.index f⟩

/-- A new node without a type. -/
def add (g : FlowGraph) (rule : Rule) (span : Span) : NodeId × FlowGraph :=
  (⟨g.size⟩, ⟨g.nodes.push ⟨none, [], [], rule, false, span⟩⟩)

/-- A new node of a fixed type. -/
def addTyped (g : FlowGraph) (type : TypeId) (span : Span) : NodeId × FlowGraph :=
  (⟨g.size⟩, ⟨g.nodes.push ⟨some type, [], [], .pinned type, false, span⟩⟩)

def setType (g : FlowGraph) (id : NodeId) (type : Option TypeId) : FlowGraph :=
  g.modify id fun n => { n with type }

/-- Freeze a node, which then keeps its type, or thaw it. -/
def setFrozen (g : FlowGraph) (id : NodeId) (frozen : Bool) : FlowGraph :=
  g.modify id fun n => { n with frozen }

/-- Let something observe a node; it does so only once. -/
def addObserver (g : FlowGraph) (id : NodeId) (observer : Observer) : FlowGraph :=
  g.modify id fun n =>
    if n.observers.contains observer then n
    else { n with observers := n.observers ++ [observer] }

def removeObserver (g : FlowGraph) (id : NodeId) (observer : Observer) : FlowGraph :=
  g.modify id fun n => { n with observers := n.observers.filter (· != observer) }

/-- Whether a node does not depend on another one yet. -/
def isNewEdge (g : FlowGraph) (id input : NodeId) : Bool :=
  id != input && !(g.get id).inputs.contains input

/-- Let a node depend on another one; a second edge between the same two changes nothing. -/
def addEdge (g : FlowGraph) (id input : NodeId) : FlowGraph :=
  if g.isNewEdge id input then
    (g.modify id fun n => { n with inputs := n.inputs ++ [input] }).addObserver input (.node id)
  else g

/-- Let a node depend on another one no longer. -/
def removeEdge (g : FlowGraph) (id input : NodeId) : FlowGraph :=
  (g.modify id fun n => { n with inputs := n.inputs.filter (· != input) }).removeObserver
    input (.node id)

/-- The types of the inputs that have one. -/
def inputTypes (g : FlowGraph) (id : NodeId) : List TypeId :=
  (g.get id).inputs.filterMap g.typeOf

end FlowGraph

/-- The type that a rule makes of the types of inputs. -/
def Rule.derive (types : List TypeId) : Rule → Build TypeId
  | .union => TypeTable.unionOf types
  | .pinned type => pure type
  | .metaclass => do TypeTable.metaclass (← TypeTable.unionOf types)
  | .array => do TypeTable.arrayOf (← TypeTable.unionOf types)
  | .function params => do TypeTable.functionOf params (← TypeTable.unionOf types)

namespace FlowGraph

/-- The type a node should have.  A node that depends on nothing keeps its own; a node with
inputs waits for the first of them to be typed. -/
def derive (g : FlowGraph) (id : NodeId) : Build (Option TypeId) :=
  let node := g.get id
  match g.inputTypes id with
  | [] => pure (if node.inputs.isEmpty then node.type else none)
  | types => some <$> node.rule.derive types

/-- The types that have to be joined to tell the type of a node; a pinned node needs none. -/
def joined (g : FlowGraph) (id : NodeId) : List TypeId :=
  match (g.get id).rule with
  | .pinned _ => []
  | _ => g.inputTypes id

/-! ## Where a type came from -/

/-- The first input, not passed yet, whose type includes the given one. -/
def carrier? (g : FlowGraph) (t : TypeTable) (type : TypeId) (passed : List NodeId)
    (id : NodeId) : Option NodeId :=
  (g.get id).inputs.find? fun input =>
    !passed.contains input && (g.typeOf input).any (t.includes · type)

/-- The nodes that carried a type to the node `id`, the nearest first, at most `length`. -/
def carriersWithin (g : FlowGraph) (t : TypeTable) (type : TypeId) :
    Nat → List NodeId → NodeId → List NodeId
  | 0, _, _ => []
  | length + 1, passed, id =>
    match g.carrier? t type passed id with
    | none => []
    | some input => input :: g.carriersWithin t type length (input :: passed) input

/-- The nodes that carried a type to the node `id`, the nearest first. -/
def carriers (g : FlowGraph) (t : TypeTable) (type : TypeId) (id : NodeId) : List NodeId :=
  g.carriersWithin t type g.size [id] id

/-- Append a place that is known and not there yet. -/
def addPlace (places : List Span) (span : Span) : List Span :=
  if span.isAbsent || places.contains span then places else places ++ [span]

/-- The places of the nodes that carried a type to the node `id`, the nearest first. -/
def trace (g : FlowGraph) (t : TypeTable) (id : NodeId) (type : TypeId) : List Span :=
  ((g.carriers t type id).map fun input => (g.get input).span).foldl addPlace []

end FlowGraph

end Callsite
