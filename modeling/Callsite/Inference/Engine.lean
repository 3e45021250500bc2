import Callsite.Inference.Session
import Callsite.Types.Denotation

/-!
# Inference steps and engines

Inference is a computation on a session that may halt with a failure.  Looking at
an expression and resolving a call start each other in ways that only the
program bounds, so the steps take both as an engine, and the engine is built
up from a supply of fuel.
-/

namespace Callsite

/-- Why a computation did not end. -/
inductive Halt where
  | failed (failure : Failure)
  /-- There is no answer: the supply of fuel was too small, or a number that a program gives
  for a type means none. -/
  | outOfFuel
  deriving Repr, Inhabited

/-- Computations on a session; the session survives a halt. -/
abbrev Infer := EStateM Halt Session

/-- What inference steps call back. -/
structure Engine where
  /-- How many observers one propagation may look at. -/
  budget : Nat
  /-- Look at an expression in a scope and give its node. -/
  visit : ScopeId → Expr → Infer NodeId
  /-- Resolve a call again if its inputs have changed. -/
  recalculate : CallId → Infer Unit

namespace Infer

/-- Stop with a cause at a place. -/
def fail {α : Type} (cause : Cause) (span : Span) : Infer α :=
  throw (.failed (.of cause span))

/-- There is no answer for a type that is not in the table. -/
def known (type : TypeId) : Infer Unit := do
  unless type.index < (← get).types.size do throw .outOfFuel

/-- Add to the types of the session. -/
def build {α : Type} (x : Build α) : Infer α := fun s =>
  let (a, types) := x s.types
  .ok a { s with types }

/-- Read a type expression in the session. -/
def denoting {α : Type} (x : Denote α) : Infer α := fun s =>
  match x s.types with
  | .ok a types => .ok a { s with types }
  | .error failure types => .error (.failed failure) { s with types }

/-- A failure is told to have happened inside a frame. -/
def within {α : Type} (frame : String) (x : Infer α) : Infer α := fun s =>
  match x s with
  | .error (.failed failure) s' => .error (.failed (failure.within frame)) s'
  | result => result

def typeOf (node : NodeId) : Infer (Option TypeId) :=
  return (← get).typeOf node

def modifyFlow (f : FlowGraph → FlowGraph) : Infer Unit :=
  modify fun s => { s with flow := f s.flow }

/-- A new node that follows a rule. -/
def ruledNode (rule : Rule) (span : Span) : Infer NodeId :=
  modifyGet fun s =>
    let (node, flow) := s.flow.add rule span
    (node, { s with flow })

def newNode (span : Span) : Infer NodeId :=
  ruledNode .union span

def typedNode (type : TypeId) (span : Span) : Infer NodeId :=
  modifyGet fun s =>
    let (node, flow) := s.flow.addTyped type span
    (node, { s with flow })

def modifyCall (id : CallId) (f : CallSite → CallSite) : Infer Unit :=
  modify fun s => { s with calls := s.calls.modify id.index f }

def pushCall (site : CallSite) : Infer CallId :=
  modifyGet fun s => (⟨s.calls.size⟩, { s with calls := s.calls.push site })

def modifyInstance (id : InstanceId) (f : Instance → Instance) : Infer Unit :=
  modify fun s => { s with instances := s.instances.modify id.index f }

def pushInstance (inst : Instance) : Infer InstanceId :=
  modifyGet fun s => (⟨s.instances.size⟩, { s with instances := s.instances.push inst })

def askCache (key : InstanceKey) : Infer (Option InstanceId) :=
  modifyGet fun s =>
    let (found, cache) := s.cache.ask key
    (found, { s with cache })

def insertCache (key : InstanceKey) (id : InstanceId) : Infer Unit :=
  modify fun s => { s with cache := s.cache.insert key id }

def pushScope (scope : Scope) : Infer ScopeId :=
  modifyGet fun s => (⟨s.scopes.size⟩, { s with scopes := s.scopes.push scope })

/-- A scope inside of another one, with variables of its own. -/
def childScope (parent : ScopeId) : Infer ScopeId := do
  pushScope { (← get).scope parent with parent := some parent, vars := .empty }

/-- Bind a variable to a node. -/
def bindVar (scope : ScopeId) (name : String) (node : NodeId) : Infer Unit :=
  modify fun s =>
    { s with
      scopes := s.scopes.modify scope.index fun sc => { sc with vars := sc.vars.insert name node } }

/-- A new variable of a scope. -/
def newVar (scope : ScopeId) (span : Span) (name : String) : Infer NodeId := do
  let node ← newNode span
  bindVar scope name node
  pure node

/-- Let a call be resolved again when a class appears below a base. -/
def watch (call : CallId) (base : TypeId) : Infer Unit :=
  modify fun s => { s with watch := s.watch.add call base }

end Infer

end Callsite
