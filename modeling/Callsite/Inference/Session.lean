import Callsite.Config
import Callsite.Flow.Graph
import Callsite.Inference.CallSite
import Callsite.Inference.Instance
import Callsite.Inference.SubclassWatch
import Callsite.Types.Name
import Callsite.Types.Standard

/-!
# Sessions

All that inference knows: the types, the flow graph, the call sites, the scopes
and the instances.  A session outlives a failure, and goes on from whatever the
failure left behind.
-/

namespace Callsite

/-- The result that a declared block has to have, kept until its body has a type. -/
structure DeclaredOutput where
  output : TypeExpr
  owner : TypeId
  free : Bindings

/-- A declared result as messages show it. -/
def DeclaredOutput.text (declared : DeclaredOutput) (types : TypeTable) : String :=
  match declared.output with
  | .selfType => types.name declared.owner
  | output => types.exprText output

/-- The state of inference. -/
structure Session where
  types : TypeTable
  flow : FlowGraph
  calls : Array CallSite
  scopes : Array Scope
  instances : Array Instance
  cache : InstanceCache
  /-- The requests for shared instances and what they were answered with, the latest first. -/
  answers : List (Request × InstanceId)
  watch : SubclassWatch
  options : InferenceOptions
  /-- Results of declared blocks that are checked when their bodies get a type. -/
  outputs : List (NodeId × DeclaredOutput)
  instantiationDepth : Nat
  propagationDepth : Nat
  /-- The greatest depths that there have been. -/
  deepestBody : Nat
  deepestWave : Nat
  deriving Inhabited

/-- The node that stands for a value nobody supplies; its type is `Nil`. -/
def NodeId.nil : NodeId := ⟨0⟩

/-- The scope of the program. -/
def ScopeId.root : ScopeId := ⟨0⟩

namespace Session

/-- The session in which nothing has been checked. -/
def start (options : InferenceOptions) : Session where
  types := .standard
  flow := (FlowGraph.empty.addTyped .nil .absent).2
  calls := #[]
  scopes := #[.top .program .program]
  instances := #[]
  cache := .empty
  answers := []
  watch := .empty
  options := options
  outputs := []
  instantiationDepth := 0
  propagationDepth := 0
  deepestBody := 0
  deepestWave := 0

/-- The session inside one more method body. -/
def enterBody (s : Session) : Session :=
  { s with
    instantiationDepth := s.instantiationDepth + 1
    deepestBody := max s.deepestBody (s.instantiationDepth + 1) }

/-- The session inside one more propagation. -/
def enterWave (s : Session) : Session :=
  { s with
    propagationDepth := s.propagationDepth + 1
    deepestWave := max s.deepestWave (s.propagationDepth + 1) }

def call (s : Session) (id : CallId) : CallSite :=
  s.calls[id.index]?.getD default

def scope (s : Session) (id : ScopeId) : Scope :=
  s.scopes[id.index]?.getD default

def instanceAt (s : Session) (id : InstanceId) : Instance :=
  s.instances[id.index]?.getD default

def typeOf (s : Session) (node : NodeId) : Option TypeId :=
  s.flow.typeOf node

/-- The name of the type of a node; a question mark if it has none. -/
def typeName (s : Session) (node : NodeId) : String :=
  match s.typeOf node with
  | some type => s.types.name type
  | none => "?"

def callIds (s : Session) : List CallId :=
  (List.range s.calls.size).map CallId.mk

def instanceIds (s : Session) : List InstanceId :=
  (List.range s.instances.size).map InstanceId.mk

/-- The calls of a name at the top level. -/
def rootCalls (s : Session) (name : String) : List CallId :=
  s.callIds.filter fun id => (s.call id).name == name && (s.call id).scope == .root

/-- The variables of the top level. -/
def rootVars (s : Session) : NameMap NodeId :=
  (s.scope .root).vars

def rootVarType? (s : Session) (name : String) : Option TypeId := do
  s.typeOf (← s.rootVars.get? name)

/-- How many calls are never reached. -/
def deadCalls (s : Session) : Nat :=
  s.callIds.countP fun id => (s.call id).isDead

/-- The name of a method with its owner; methods of the program have none. -/
def fullName (s : Session) (owner : TypeId) (name : String) : String :=
  if owner = .program then name else s.types.name owner ++ "#" ++ name

/-- An instance as reports show it. -/
def describe (s : Session) (id : InstanceId) : String :=
  let inst := s.instanceAt id
  s.fullName inst.owner (s.types.method inst.method).name ++ "(" ++ s.types.names inst.args ++ ")"

/-- The nodes of the results of instances. -/
def resultNodes (s : Session) (ids : List InstanceId) : List NodeId :=
  ids.map fun id => (s.instanceAt id).node

/-- A variable that is seen from a scope, through at most `depth` scopes. -/
def findVarWithin (s : Session) (name : String) : Nat → ScopeId → Option NodeId
  | 0, _ => none
  | depth + 1, id =>
    let scope := s.scope id
    match scope.vars.get? name, scope.parent with
    | some node, _ => some node
    | none, some parent => s.findVarWithin name depth parent
    | none, none => none

/-- The variable that a name means in a scope. -/
def findVar? (s : Session) (scope : ScopeId) (name : String) : Option NodeId :=
  s.findVarWithin name s.scopes.size scope

/-- The outermost of the scopes around a scope, at most `depth` steps away. -/
def bodyScopeWithin (s : Session) : Nat → ScopeId → ScopeId
  | 0, id => id
  | depth + 1, id =>
    match (s.scope id).parent with
    | some parent => s.bodyScopeWithin depth parent
    | none => id

/-- The scope of the body that a scope belongs to, outside of all blocks. -/
def bodyScope (s : Session) (scope : ScopeId) : ScopeId :=
  s.bodyScopeWithin s.scopes.size scope

/-- The types of the arguments that have one. -/
def argTypes (s : Session) (id : CallId) : List TypeId :=
  (s.call id).argNodes.filterMap s.typeOf

/-- The types of all inputs, once they have types. -/
def inputTypes? (s : Session) (id : CallId) : Option (List TypeId) :=
  (s.call id).inputs.mapM s.typeOf

end Session

end Callsite
