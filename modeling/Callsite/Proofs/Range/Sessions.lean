import Callsite.Proofs.Range.Matching
import Callsite.Proofs.Run.Reading

/-!
# Sessions in range

The tables of types, methods, nodes, calls, scopes and instances refer to each other by numbers.
That the nodes, calls, scopes and instances that are referred to are there is part of what makes a
session sound; here it is said of the types and the methods.
-/

namespace Callsite

namespace Sizes

variable {z z' : Sizes}

/-! ## Nodes -/

instance : Ranged Observer where
  Within z
    | .node id => z.Holds id
    | .call id => z.Holds id
  mono {_ _ a} hz h := by
    cases a with
    | node | call => exact Holds.mono h hz

instance : Ranged Rule where
  Within z
    | .pinned type => z.Holds type
    | .function params => z.Holds params
    | _ => True
  mono {_ _ a} hz h := by
    cases a with
    | pinned | function => exact Holds.mono h hz
    | _ => trivial

structure HoldsNode (z : Sizes) (n : FlowNode) : Prop where
  type : z.Holds n.type
  inputs : z.Holds n.inputs
  observers : z.Holds n.observers
  rule : z.Holds n.rule

instance : Ranged FlowNode where
  Within := HoldsNode
  mono hz h := ⟨h.type.mono hz, h.inputs.mono hz, h.observers.mono hz, h.rule.mono hz⟩

/-! ## Calls and scopes -/

instance : Ranged Argument where
  Within z arg := z.Holds arg.node
  mono hz h := Holds.mono h hz

structure HoldsBlock (z : Sizes) (b : BlockSite) : Prop where
  params : z.Holds b.params
  body : z.Holds b.body
  scope : z.Holds b.scope
  visit : z.Holds b.visit.node?

instance : Ranged BlockSite where
  Within := HoldsBlock
  mono hz h := ⟨h.params.mono hz, h.body.mono hz, h.scope.mono hz, h.visit.mono hz⟩

instance : Ranged Conversion where
  Within z c := z.Holds c.source
  mono hz h := Holds.mono h hz

/-- What a call refers to is there. -/
structure HoldsSite (z : Sizes) (c : CallSite) : Prop where
  node : z.Holds c.node
  receiver : z.Holds c.receiver
  args : z.Holds c.args
  block : z.Holds c.block
  blockArg : z.Holds c.blockArg
  scope : z.Holds c.scope
  targets : z.Holds c.targets
  signature : z.Holds c.signature
  paramEdges : z.Holds c.paramEdges
  blockEdges : z.Holds c.blockEdges
  conversions : z.Holds c.conversions

instance : Ranged CallSite where
  Within := HoldsSite
  mono hz h :=
    { node := h.node.mono hz
      receiver := h.receiver.mono hz
      args := h.args.mono hz
      block := h.block.mono hz
      blockArg := h.blockArg.mono hz
      scope := h.scope.mono hz
      targets := h.targets.mono hz
      signature := h.signature.mono hz
      paramEdges := h.paramEdges.mono hz
      blockEdges := h.blockEdges.mono hz
      conversions := h.conversions.mono hz }

structure HoldsScope (z : Sizes) (sc : Scope) : Prop where
  parent : z.Holds sc.parent
  vars : z.Holds sc.vars
  selfType : z.Holds sc.selfType
  methodOwner : z.Holds sc.methodOwner
  inst : z.Holds sc.inst
  call : z.Holds sc.call
  free : z.Holds sc.free
  blockInputs : z.Holds sc.blockInputs
  method : z.Holds sc.method

instance : Ranged Scope where
  Within := HoldsScope
  mono hz h :=
    { parent := h.parent.mono hz
      vars := h.vars.mono hz
      selfType := h.selfType.mono hz
      methodOwner := h.methodOwner.mono hz
      inst := h.inst.mono hz
      call := h.call.mono hz
      free := h.free.mono hz
      blockInputs := h.blockInputs.mono hz
      method := h.method.mono hz }

/-! ## Instances -/

structure HoldsInstance (z : Sizes) (inst : Instance) : Prop where
  method : z.Holds inst.method
  owner : z.Holds inst.owner
  selfType : z.Holds inst.selfType
  args : z.Holds inst.args
  params : z.Holds inst.params
  node : z.Holds inst.node
  body : z.Holds inst.body
  scope : z.Holds inst.scope
  free : z.Holds inst.free

instance : Ranged Instance where
  Within := HoldsInstance
  mono hz h :=
    { method := h.method.mono hz
      owner := h.owner.mono hz
      selfType := h.selfType.mono hz
      args := h.args.mono hz
      params := h.params.mono hz
      node := h.node.mono hz
      body := h.body.mono hz
      scope := h.scope.mono hz
      free := h.free.mono hz }

instance : Ranged InstanceKey where
  Within z key := z.Holds key.method ∧ z.Holds key.owner ∧ z.Holds key.args ∧ z.Holds key.block
  mono hz h := ⟨h.1.mono hz, h.2.1.mono hz, h.2.2.1.mono hz, h.2.2.2.mono hz⟩

structure HoldsRequest (z : Sizes) (r : Request) : Prop where
  method : z.Holds r.method
  owner : z.Holds r.owner
  selfType : z.Holds r.selfType
  args : z.Holds r.args
  block : z.Holds r.block

instance : Ranged Request where
  Within := HoldsRequest
  mono hz h :=
    ⟨h.method.mono hz, h.owner.mono hz, h.selfType.mono hz, h.args.mono hz, h.block.mono hz⟩

theorem holds_key {r : Request} (h : z.Holds r) : z.Holds r.key :=
  ⟨h.method, h.owner, holds_append.2 ⟨holds_toList.2 h.selfType, h.args⟩, h.block⟩

instance : Ranged DeclaredOutput where
  Within z d := z.Holds d.output ∧ z.Holds d.owner ∧ z.Holds d.free
  mono hz h := ⟨h.1.mono hz, h.2.1.mono hz, h.2.2.mono hz⟩

end Sizes

open Sizes

/-! ## Sessions -/

namespace Session

/-- How many types, methods, nodes, calls, scopes and instances there are. -/
def sizes (s : Session) : Sizes where
  types := s.types.size
  methods := s.types.methods.size
  nodes := s.flow.size
  calls := s.calls.size
  scopes := s.scopes.size
  instances := s.instances.size

/-- All that a session stores is in range. -/
structure Within (s : Session) (z : Sizes) : Prop where
  shapes : z.Holds s.types.shapes
  constants : z.Holds s.types.constants
  methods : z.Holds s.types.methods.methods
  slots : z.Holds s.types.methods.slots
  nodes : z.Holds s.flow.nodes
  calls : z.Holds s.calls
  scopes : z.Holds s.scopes
  instances : z.Holds s.instances
  entries : z.Holds s.cache.entries
  answers : z.Holds s.answers
  byBase : z.Holds s.watch.byBase.entries
  registrations : z.Holds s.watch.registrations.entries
  outputs : z.Holds s.outputs

end Session

/-! ## Types in a session -/

/-- What the graph says about the type of a node. -/
def FlowGraph.types (g : FlowGraph) (node : NodeId) : Option TypeId × Rule :=
  (g.typeOf node, (g.get node).rule)

def CallSite.types (c : CallSite) : Option (List TypeId) × Option (Option Expr) :=
  (c.signature, c.block.map (·.body))

/-- The types and the method that a scope refers to. -/
def Scope.types (sc : Scope) : TypeId × TypeId × Bindings × Option MethodId :=
  (sc.selfType, sc.methodOwner, sc.free, sc.method)

/-- The method and the types that an instance refers to. -/
def Instance.types (inst : Instance) : MethodId × TypeId × TypeId × List TypeId × Bindings :=
  (inst.method, inst.owner, inst.selfType, inst.args, inst.free)

/-- All types and methods that a session refers to are in its table, the scopes of bodies belong to
instances that are there, and no key of the cache is listed twice. -/
structure Session.InRange (s : Session) : Prop where
  table : s.types.InRange
  nodes : ∀ node, s.types.sizes.Holds (s.flow.types node)
  calls : ∀ site ∈ s.calls, s.types.sizes.Holds site.types
  scopes : ∀ scope ∈ s.scopes, s.types.sizes.Holds scope.types
  bodies : ∀ scope ∈ s.scopes, ∀ id, scope.inst = some id → s.HasInstance id
  instances : ∀ inst ∈ s.instances, s.types.sizes.Holds inst.types
  entries : ∀ entry ∈ s.cache.entries, s.types.sizes.Holds entry.1
  answers : ∀ entry ∈ s.answers, s.types.sizes.Holds entry.1
  outputs : ∀ entry ∈ s.outputs, s.types.sizes.Holds entry.2
  keys : (s.cache.entries.map (·.1)).Nodup

namespace Session.InRange

variable {s : Session} (h : s.InRange)
include h

/-- The types of a session may be replaced by more types in range. -/
theorem withTypes {types : TypeTable} (hle : s.types.sizes ≤ types.sizes) (hin : types.InRange) :
    ({ s with types } : Session).InRange where
  table := hin
  nodes node := (h.nodes node).mono hle
  calls site hsite := (h.calls site hsite).mono hle
  scopes scope hscope := (h.scopes scope hscope).mono hle
  bodies := h.bodies
  instances inst hinst := (h.instances inst hinst).mono hle
  entries entry hentry := (h.entries entry hentry).mono hle
  answers entry hentry := (h.answers entry hentry).mono hle
  outputs entry hentry := (h.outputs entry hentry).mono hle
  keys := h.keys

theorem holds_standard {index : Nat} (hindex : index ≤ TypeId.pointer.index) :
    s.types.sizes.Holds (⟨index⟩ : TypeId) :=
  h.table.holds_standard hindex

theorem typeOf (id : NodeId) : s.types.sizes.Holds (s.typeOf id) :=
  (h.nodes id).1

theorem call (id : CallId) : s.types.sizes.Holds (s.call id).types :=
  forall_getD h.calls _ ⟨holds_none, holds_none⟩

theorem scope (id : ScopeId) : s.types.sizes.Holds (s.scope id).types := by
  have hprogram : s.types.sizes.Holds TypeId.program := h.holds_standard (by decide)
  exact forall_getD h.scopes _ ⟨hprogram, hprogram, holds_emptyMap, holds_none⟩

theorem body (scope : ScopeId) : ∀ id, (s.scope scope).inst = some id → s.HasInstance id :=
  forall_getD h.bodies _ (by simp [default, Scope.top])

theorem argTypes (id : CallId) : s.types.sizes.Holds (s.argTypes id) := by
  intro type htype
  obtain ⟨node, -, hnode⟩ := List.mem_filterMap.1 htype
  exact h.typeOf node type hnode

theorem inputTypes? (id : CallId) : s.types.sizes.Holds (s.inputTypes? id) := by
  intro types htypes type htype
  obtain ⟨i, hi⟩ := List.mem_iff_getElem?.1 htype
  obtain ⟨node, -, hnode⟩ := Option.bind_eq_some_iff.1 ((getElem?_of_mapM htypes i).symm.trans hi)
  exact h.typeOf node type hnode

end Session.InRange

end Callsite
