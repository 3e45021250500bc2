import Callsite.Matching.Overload

/-!
# Scopes and call sites

A scope is where variables live: the program, a class body, the body of a method
or a block.  A call site is a call with the nodes of its parts and what it has
been resolved to.
-/

namespace Callsite

/-- Where variables live. -/
structure Scope where
  /-- The scope around a block or a function literal. -/
  parent : Option ScopeId
  vars : NameMap NodeId
  selfType : TypeId
  methodOwner : TypeId
  /-- The instance whose body this is. -/
  inst : Option InstanceId
  /-- The call that the body is instantiated for; its block receives what the body yields. -/
  call : Option CallId
  free : Bindings
  /-- What the block's parameters are given, if the method declares their types. -/
  blockInputs : Option (List NodeId)
  method : Option MethodId

namespace Scope

/-- The scope of a program or of a class body. -/
def top (selfType methodOwner : TypeId) : Scope :=
  ⟨none, .empty, selfType, methodOwner, none, none, .empty, none, none⟩

instance : Inhabited Scope := ⟨top .program .program⟩

end Scope

structure Argument where
  node : NodeId
  isOut : Bool
  span : Span
  deriving Inhabited

/-- How far the body of a block has been looked at. -/
inductive Visit where
  | pending
  | started
  | finished (node : NodeId)
  deriving DecidableEq, Repr, Inhabited

/-- The node of a body that has been looked at. -/
def Visit.node? : Visit → Option NodeId
  | .finished node => some node
  | _ => none

structure BlockSite where
  params : List NodeId
  names : List String
  body : Option Expr
  scope : ScopeId
  visit : Visit
  deriving Inhabited

/-- The implicit conversions of arguments of foreign functions. -/
inductive ConversionKind where
  /-- A string becomes a pointer to its characters. -/
  | stringToPointer
  | nilToPointer
  | functionToVoid
  deriving DecidableEq, Repr, Inhabited

/-- A conversion applied to the argument at a position. -/
structure Conversion where
  index : Nat
  kind : ConversionKind
  source : NodeId
  deriving DecidableEq, Repr, Inhabited

/-- A call and its resolution. -/
structure CallSite where
  node : NodeId
  name : String
  receiver : Option NodeId
  args : List Argument
  block : Option BlockSite
  blockArg : Option NodeId
  hasParens : Bool
  scope : ScopeId
  span : Span
  /-- The instances the call resolves to, once it is resolved. -/
  targets : Option (List InstanceId)
  /-- The types of the inputs when the call was last resolved. -/
  signature : Option (List TypeId)
  /-- Edges from parameters to arguments that the targets need. -/
  paramEdges : List (NodeId × NodeId)
  /-- Edges from block parameters to what a declared block is given. -/
  blockEdges : List (NodeId × NodeId)
  conversions : List Conversion
  /-- The receiver does not return, so that there is nothing to resolve. -/
  deferred : Bool

namespace CallSite

/-- A call without arguments that has not been resolved. -/
def fresh (node : NodeId) (name : String) (receiver : Option NodeId) (scope : ScopeId)
    (span : Span) : CallSite where
  node := node
  name := name
  receiver := receiver
  args := []
  block := none
  blockArg := none
  hasParens := false
  scope := scope
  span := span
  targets := none
  signature := none
  paramEdges := []
  blockEdges := []
  conversions := []
  deferred := false

instance : Inhabited CallSite := ⟨fresh default "" none default .absent⟩

/-- The call once its block has been looked at so far. -/
abbrev visited (c : CallSite) (visit : Visit) : CallSite :=
  { c with block := c.block.map ({ · with visit }) }

/-- The call opened for the given types of its inputs, without what it was resolved to. -/
abbrev opened (c : CallSite) (signature : List TypeId) : CallSite :=
  { c with
    signature := some signature, targets := none, paramEdges := [], blockEdges := []
    deferred := false }

/-- The call with the converted form of an argument in its place. -/
abbrev converted (c : CallSite) (index : Nat) (kind : ConversionKind) (source node : NodeId) :
    CallSite :=
  { c with
    args := c.args.modify index fun arg => { arg with node }
    conversions := c.conversions ++ [⟨index, kind, source⟩] }

/-- The targets of a call; none while it is not resolved. -/
def resolved (c : CallSite) : List InstanceId :=
  c.targets.getD []

/-- A call that is never reached, because its receiver does not return. -/
def isDead (c : CallSite) : Bool :=
  c.deferred && c.resolved.isEmpty

def hasBlock (c : CallSite) : Bool :=
  c.block.isSome

def argNodes (c : CallSite) : List NodeId :=
  c.args.map (·.node)

/-- The nodes whose types decide the resolution: arguments, receiver, block argument. -/
def inputs (c : CallSite) : List NodeId :=
  c.argNodes ++ c.receiver.toList ++ c.blockArg.toList

end CallSite

end Callsite
