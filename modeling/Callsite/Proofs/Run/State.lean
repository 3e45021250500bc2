import Callsite.Inference.Check
import Callsite.Proofs.Run.Registrations
import Callsite.Proofs.Types.Descendants
import Callsite.Proofs.Types.Matching
import Mathlib.Data.Set.Insert

/-!
# Facts about sessions

What can be said of the parts of a session at one moment: which nodes, calls,
instances and scopes there are and what they refer to, whether a node has the type
of its inputs, whether a call has been resolved for the types of its own, and whether
its targets agree with its arguments and its block.
-/

namespace Callsite

variable {node : NodeId} {s : Session} {call : CallId}

/-! ## Nodes of a session -/

/-- A node that nothing is bound to yet. -/
structure FlowNode.IsBlank (node : FlowNode) : Prop where
  inputs : node.inputs = []
  observers : node.observers = []

theorem CallSite.mem_inputs {site : CallSite} :
    node ∈ site.inputs ↔
      (∃ arg ∈ site.args, arg.node = node) ∨ site.receiver = some node ∨
        site.blockArg = some node := by
  simp [inputs, argNodes]

/-- A call has converted a node that it was given with `out`. -/
def CallSite.ConvertsOut (site : CallSite) (source : NodeId) : Prop :=
  ∃ conversion ∈ site.conversions, conversion.source = source ∧
    (site.args.map (·.isOut))[conversion.index]? = some true

/-- A call is given a node at one position only, if at all. -/
structure CallSite.Apart (site : CallSite) (index : Nat) (node : NodeId) : Prop where
  args : ∀ i arg, site.args[i]? = some arg → i ≠ index → arg.node ≠ node
  receiver : site.receiver ≠ some node
  blockArg : site.blockArg ≠ some node

/-- A call is given a node, or has converted it, or it is that of the body of its block. -/
def CallSite.Uses (site : CallSite) (node : NodeId) : Prop :=
  node ∈ site.inputs ∨ (∃ conversion ∈ site.conversions, conversion.source = node) ∨
    site.block.bind (·.visit.node?) = some node

/-- An argument of one type is passed for a parameter of another: the same, or for `out` a pointer
to it. -/
def TypeTable.Passes (t : TypeTable) (isOut : Bool) (actual type : TypeId) : Prop :=
  if isOut then t.pointee? type = some actual else actual = type

/-- The types that a conversion makes of an argument. -/
def TypeTable.Yields (t : TypeTable) (kind : ConversionKind) (type : TypeId) : Prop :=
  match kind with
  | .nilToPointer => t.isPointer type = true
  | .stringToPointer => t.pointee? type = some .char
  | .functionToVoid => ∃ params, t.shape type = .function params .void

theorem Visit.node?_eq_some {visit : Visit} : visit.node? = some node ↔ visit = .finished node := by
  cases visit with
  | finished body => simp [node?]
  | _ => simp [node?]

namespace Session

def HasNode (s : Session) (node : NodeId) : Prop :=
  node.index < s.flow.size

def HasCall (s : Session) (call : CallId) : Prop :=
  call.index < s.calls.size

def HasInstance (s : Session) (id : InstanceId) : Prop :=
  id.index < s.instances.size

instance (s : Session) (call : CallId) : Decidable (s.HasCall call) :=
  inferInstanceAs (Decidable (call.index < s.calls.size))

instance (s : Session) (id : InstanceId) : Decidable (s.HasInstance id) :=
  inferInstanceAs (Decidable (id.index < s.instances.size))

/-- A call that was made to convert an `out` argument of another one. -/
def IsConversion (s : Session) (call : CallId) : Prop :=
  ∃ source other, (s.call call).receiver = some source ∧ s.HasCall other ∧
    (s.call other).ConvertsOut source

theorem isConversion_iff :
    s.IsConversion call ↔ ∃ site ∈ s.calls, ∃ conversion ∈ site.conversions,
      (s.call call).receiver = some conversion.source ∧
        (site.args.map (·.isOut))[conversion.index]? = some true := by
  constructor
  · rintro ⟨source, ⟨i⟩, hreceiver, hother, conversion, hmem, rfl, hisOut⟩
    have hsite : s.call ⟨i⟩ ∈ s.calls := by
      simp [Session.call, Array.getElem?_eq_getElem (show i < s.calls.size from hother)]
    exact ⟨s.call ⟨i⟩, hsite, conversion, hmem, hreceiver, hisOut⟩
  · rintro ⟨site, hsite, conversion, hmem, hreceiver, hisOut⟩
    obtain ⟨i, hi, rfl⟩ := Array.mem_iff_getElem.1 hsite
    have hcall : s.call ⟨i⟩ = s.calls[i] := by simp [Session.call, hi]
    exact ⟨conversion.source, ⟨i⟩, hreceiver, hi, conversion, hcall ▸ hmem, rfl, hcall ▸ hisOut⟩

instance (s : Session) (call : CallId) : Decidable (s.IsConversion call) :=
  decidable_of_iff' _ isConversion_iff

/-- A node that values may be bound to and unbound from: any but those of calls, apart from
conversions of `out` arguments. -/
structure IsSlot (s : Session) (node : NodeId) : Prop where
  has : s.HasNode node
  conversion : ∀ call, s.HasCall call → (s.call call).node = node → s.IsConversion call

/-- The node of the body of a call's block, once the block has been looked at. -/
def body? (s : Session) (call : CallId) : Option NodeId :=
  (s.call call).block.bind (·.visit.node?)

/-- The body of a call's block has a type that it keeps. -/
structure HoldsBody (s : Session) (call : CallId) (node : NodeId) (type : TypeId) : Prop where
  body : s.body? call = some node
  frozen : (s.flow.get node).frozen = true
  typeOf : s.typeOf node = some type

theorem body?_eq_some :
    s.body? call = some node ↔
      ∃ block, (s.call call).block = some block ∧ block.visit = .finished node := by
  simp [body?, Option.bind_eq_some_iff, Visit.node?_eq_some]

/-- A node that has no use yet, apart from the edges that it has. -/
structure IsLoose (s : Session) (node : NodeId) : Prop where
  has : s.HasNode node
  unused : ∀ call, ¬ (s.call call).Uses node
  unbound : ∀ scope, ∀ entry ∈ (s.scope scope).vars.entries, entry.2 ≠ node

/-- A scope whose variables may all be assigned to. -/
structure IsPlain (s : Session) (scope : ScopeId) : Prop where
  has : scope.index < s.scopes.size
  vars : ∀ entry ∈ (s.scope scope).vars.entries, s.IsSlot entry.2

end Session

/-! ## Parts that fit a session -/

/-- An expression that only reads a variable. -/
def Expr.IsRead (e : Expr) : Prop :=
  ∃ name, e.form = .var name

/-- An expression that assigns to no variable around it: a variable that is read, or the call
of a function in place of a block. -/
def Expr.IsPassive (e : Expr) : Prop :=
  e.IsRead ∨ ∃ names span, e = Infer.blockArgBody names span

structure BlockSite.Sits (s : Session) (block : BlockSite) : Prop where
  scope : block.scope.index < s.scopes.size
  params : ∀ param ∈ block.params, s.IsSlot param
  visited : ∀ node, block.visit = .finished node → s.HasNode node
  body : s.IsPlain block.scope ∨ ∀ body, block.body = some body → body.IsPassive

/-- A call refers to what is there. -/
structure CallSite.Sits (s : Session) (site : CallSite) : Prop where
  node : s.HasNode site.node
  rule : (s.flow.get site.node).rule = .union
  inputs : ∀ input ∈ site.inputs, s.HasNode input
  outs : ∀ arg ∈ site.args, arg.isOut = true → s.IsSlot arg.node
  targets : ∀ id ∈ site.resolved, s.HasInstance id
  edges : ∀ edge ∈ site.paramEdges ++ site.blockEdges, s.IsSlot edge.1 ∧ s.HasNode edge.2
  written : site.scope.index < s.scopes.size
  sources : ∀ conversion ∈ site.conversions, s.HasNode conversion.source
  scope : site.blockArg ≠ none → s.IsPlain site.scope
  block : ∀ block, site.block = some block → block.Sits s

structure Instance.Sits (s : Session) (inst : Instance) : Prop where
  node : s.IsSlot inst.node
  params : ∀ param ∈ inst.params, s.IsSlot param
  body : ∀ body, inst.body = some body → s.HasNode body
  scope : ∀ scope, inst.scope = some scope → s.IsPlain scope

structure Scope.Sits (s : Session) (scope : Scope) : Prop where
  vars : ∀ entry ∈ scope.vars.entries, s.HasNode entry.2
  call : ∀ call, scope.call = some call → s.HasCall call
  blockInputs : ∀ inputs, scope.blockInputs = some inputs → ∀ input ∈ inputs, s.HasNode input
  parent : ∀ parent, scope.parent = some parent → s.IsPlain parent

/-- The result that a method declares for its block, if it yields to one. -/
def Method.blockResult? (method : Method) : Option TypeExpr :=
  if method.yields.isSome then method.decl.blockParam.bind (·.output) else none

theorem Method.blockResult?_eq_some {method : Method} {output : TypeExpr} :
    method.blockResult? = some output ↔
      ∃ yields declared, method.yields = some yields ∧
        method.decl.blockParam = some declared ∧ declared.output = some output := by
  cases hyields : method.yields with
  | none => simp [blockResult?, hyields]
  | some yields => simp [blockResult?, hyields, Option.bind_eq_some_iff]

namespace Session

/-! ## Types of nodes -/

/-- The union of the inputs of a node is the given type, which is in the table. -/
structure Joins (s : Session) (node : NodeId) (type : TypeId) : Prop where
  known : ∀ input ∈ s.flow.inputTypes node, s.types.Known input
  union : TypeTable.unionOf (s.flow.inputTypes node) s.types = (type, s.types)

/-- A node that joins its inputs has the type of their union, as soon as one has a type. -/
def IsJoined (s : Session) (node : NodeId) : Prop :=
  (s.flow.get node).rule = .union → s.flow.inputTypes node ≠ [] →
    ∃ type, s.Joins node type ∧ s.typeOf node = some type

/-! ## Calls of a session -/

def HasOut (s : Session) (call : CallId) : Prop :=
  ∃ arg ∈ (s.call call).args, arg.isOut = true

def HasDeadArg (s : Session) (call : CallId) : Prop :=
  ∃ arg ∈ (s.call call).argNodes, s.typeOf arg = some .noReturn

instance (s : Session) (call : CallId) : Decidable (s.HasDeadArg call) :=
  inferInstanceAs (Decidable (∃ arg ∈ (s.call call).argNodes, s.typeOf arg = some .noReturn))

def IsLibrary (s : Session) (type : TypeId) : Prop :=
  ∃ info, s.types.shape type = .library info

def OnLibrary (s : Session) (call : CallId) : Prop :=
  ∃ receiver type, (s.call call).receiver = some receiver ∧ s.typeOf receiver = some type ∧
    s.IsLibrary type

/-- A call has been resolved for the types that its inputs have, or is a call to which this
does not apply. -/
def IsCurrent (s : Session) (call : CallId) : Prop :=
  (s.call call).conversions ≠ [] ∨ s.OnLibrary call ∨ s.inputTypes? call = none ∨
    ¬ s.HasOut call ∧ (s.HasDeadArg call ∨ (s.call call).signature = s.inputTypes? call)

/-- The receiver of a call, if it has one with a type, is known not to be a library. -/
def OffLibrary (s : Session) (call : CallId) : Prop :=
  ∀ receiver type, (s.call call).receiver = some receiver → s.typeOf receiver = some type →
    s.types.Known type ∧ ¬ s.IsLibrary type

/-- A call has been resolved for the types that its inputs have, whatever it is called on. -/
def IsSigned (s : Session) (call : CallId) : Prop :=
  s.inputTypes? call = none ∨ (s.HasDeadArg call ∧ s.OffLibrary call) ∨
    (s.call call).signature = s.inputTypes? call

/-- A call can be resolved to a foreign function: it has an argument that only such a function can
have, or it has been signed for a library. -/
def FitsForeign (s : Session) (call : CallId) : Prop :=
  (s.call call).conversions ≠ [] ∨ s.inputTypes? call ≠ none ∧
    (s.HasOut call ∨ s.OnLibrary call ∧ (s.call call).signature = s.inputTypes? call)

/-- The type of the receiver that a call was resolved for. -/
def resolvedType? (s : Session) (call : CallId) : Option TypeId :=
  match (s.call call).signature, (s.call call).receiver with
  | some signature, some _ => signature[(s.call call).args.length]?
  | _, _ => none

theorem resolvedType?_eq_some {type : TypeId} (h : s.resolvedType? call = some type) :
    ∃ signature receiver, (s.call call).signature = some signature ∧
      (s.call call).receiver = some receiver ∧
      signature[(s.call call).args.length]? = some type := by
  unfold resolvedType? at h
  split at h
  next signature receiver hsignature hreceiver =>
    exact ⟨signature, receiver, hsignature, hreceiver, h⟩
  next => simp at h

/-- Some of the targets is a method of the owner. -/
def Reaches (s : Session) (targets : List InstanceId) (owner : TypeId) : Prop :=
  ∃ id ∈ targets, (s.instanceAt id).owner = owner

/-- A call watches a base, and its targets reach the concrete classes below it, apart from
some gaps. -/
structure Spans (s : Session) (gaps : Set (CallId × TypeId × TypeId)) (call : CallId)
    (targets : List InstanceId) (base : TypeId) : Prop where
  watched : (call, base) ∈ s.watch.pairs
  reached : ∀ cls, s.types.Realizes base cls → s.Reaches targets cls ∨ (call, base, cls) ∈ gaps

/-- Targets of a call span all hierarchies in the type of its receiver. -/
def Covers (s : Session) (gaps : Set (CallId × TypeId × TypeId)) (call : CallId)
    (targets : List InstanceId) : Prop :=
  ∀ type, s.resolvedType? call = some type →
    s.types.Known type ∧
      ∀ member ∈ s.types.members type, ∀ base, s.types.shape member = .hierarchy base →
        s.Spans gaps call targets base

/-- An owner is a hierarchy, of classes or of their metaclasses, with no class that the call
could reach, apart from some gaps. -/
def IsVacant (s : Session) (gaps : Set (CallId × TypeId × TypeId)) (call : CallId)
    (owner : TypeId) : Prop :=
  ∃ base, (s.types.shape owner = .hierarchy base ∨ s.types.shape owner = .hierarchyMetaclass base) ∧
    s.Spans gaps call [] base

/-- Nothing is there that a call could be resolved to: all owners in the type of its receiver are
vacant, or the one that a call without receiver goes to. -/
structure Vacates (s : Session) (gaps : Set (CallId × TypeId × TypeId)) (call : CallId) : Prop where
  receiver :
    ∀ type, s.resolvedType? call = some type →
      s.types.Known type ∧ ∀ member ∈ s.types.members type, s.IsVacant gaps call member
  self :
    (s.call call).receiver = none → ∃ owner, s.IsVacant gaps call owner ∧
      ((s.call call).name ≠ "super" → owner = (s.scope (s.call call).scope).selfType)

/-! ## Targets of a call -/

def methodOf (s : Session) (id : InstanceId) : Method :=
  s.types.method (s.instanceAt id).method

/-- All parameters of a target are restricted to types, and the arguments of a call have types that
can be passed for them. -/
structure Takes (s : Session) (call : CallId) (types : List TypeId) (id : InstanceId) : Prop where
  has : s.HasInstance id
  known : (s.instanceAt id).method.index < s.types.methods.size
  params :
    ∀ (i : Nat) (param : Param), (s.methodOf id).decl.params[i]? = some param →
      ∃ (type : TypeId) (arg : Argument) (actual : TypeId),
        param.restriction = some (.resolved type) ∧ (s.call call).args[i]? = some arg ∧
          types[i]? = some actual ∧ s.types.Passes arg.isOut actual type

/-- A call has one target, a foreign function, and has been signed for the types of its inputs.
It can be passed them, unless it was given a string. -/
structure CallsForeign (s : Session) (call : CallId) (id : InstanceId) : Prop where
  targets : (s.call call).targets = some [id]
  signed : (s.call call).signature = s.inputTypes? call
  takes :
    (∀ conversion ∈ (s.call call).conversions, conversion.kind ≠ .stringToPointer) →
      ∃ signature, (s.call call).signature = some signature ∧ s.Takes call signature id

/-- The result that an instance declares for its block, if it yields to one. -/
def blockResult? (s : Session) (id : InstanceId) : Option TypeExpr :=
  (s.methodOf id).blockResult?

/-- The body of a call's block has the type that a target was made for, and keeps it. -/
def IsHeldTo (s : Session) (call : CallId) (id : InstanceId) : Prop :=
  (s.call call).blockArg = none → s.blockResult? id ≠ none →
    ∀ key type, s.cache.find? key = some id → key.block = some type →
      ∃ body, s.HoldsBody call body type

/-- A declared result of a block has accepted a type and bound variables. -/
def Accepts (s : Session) (owner : TypeId) (output : TypeExpr) (type : TypeId) (free : Bindings) :
    Prop :=
  ∃ (t : TypeTable) (free0 : Bindings), t.Founded ∧ t.Grows s.types ∧
    (TypeTable.restrict owner output type free0 t).1 = (some type, free)

/-- The result that an instance declares for its block has accepted a type, and bound the
variables that the instance has. -/
def AcceptsBlock (s : Session) (id : InstanceId) (type : TypeId) : Prop :=
  ∀ output, s.blockResult? id = some output →
    s.Accepts (s.instanceAt id).owner output type (s.instanceAt id).free

/-! ## Requests -/

/-- An instance is exactly what a request asks for. -/
structure Serves (s : Session) (request : Request) (id : InstanceId) : Prop where
  has : s.HasInstance id
  method : (s.instanceAt id).method = request.method
  owner : (s.instanceAt id).owner = request.owner
  selfType : (s.instanceAt id).selfType = request.selfType.getD request.owner
  args : (s.instanceAt id).args = request.args

/-- Whether the method of a request may leave out parameters. -/
def mayOmit (s : Session) (request : Request) : Bool :=
  (s.types.method request.method).decl.hasDefaults

/-- The numbers of arguments in requests for methods without default values. -/
structure HasArity (s : Session) (request : Request) : Prop where
  known : request.method.index < s.types.methods.size
  le :
    s.mayOmit request = false →
      request.args.length ≤ (s.types.method request.method).decl.params.length
  eq_of_super :
    s.mayOmit request = false → request.selfType.isSome = true →
      request.args.length = (s.types.method request.method).decl.params.length

end Session

end Callsite
