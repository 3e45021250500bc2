import Callsite.Inference.Engine

/-!
# Propagation

When a node gets a new type, its observers are looked at in turn: nodes derive
their type again, and calls are resolved again.  Observers of a node that
changed come before those that were already waiting, so types move depth first.
Resolving a call may change further nodes; the depth of such nested propagations
is limited.
-/

namespace Callsite.Infer

/-- Check the type of a block's body against the declared result, and give the bindings of
free variables afterwards.  The declared result has to accept the whole type. -/
def checkOutput (body : NodeId) (found : TypeId) (declared : DeclaredOutput) :
    Infer Bindings := do
  let (accepted, free) ←
    build (TypeTable.restrict declared.owner declared.output found declared.free)
  if accepted = some found then pure free
  else
    let s ← get
    fail (.blockResult (declared.text s.types) (s.types.name found))
      (s.flow.get body).span

/-- Take the declared result of a body out of those that wait. -/
def takeOutput (body : NodeId) : Infer (Option DeclaredOutput) :=
  modifyGet fun s =>
    (s.outputs.lookup body, { s with outputs := s.outputs.filter fun entry => entry.1 != body })

/-- Give a node a type.  A frozen node accepts its first type, if a declared result allows
it, and no other after that. -/
def assign (node : NodeId) (type : TypeId) : Infer Unit := do
  let s ← get
  let entry := s.flow.get node
  if entry.frozen then
    match entry.type with
    | some current =>
      if current ≠ type then
        fail (.blockResult (s.types.name current) (s.types.name type)) entry.span
    | none =>
      if let some declared ← takeOutput node then
        let _ ← checkOutput node type declared
  modifyFlow (·.setType node type)

/-- The type that a node should have now, when it differs from the one it has. -/
def change? (node : NodeId) : Infer (Option TypeId) := do
  let flow := (← get).flow
  (flow.joined node).forM known
  let derived ← build (flow.derive node)
  pure (if derived = flow.typeOf node then none else derived)

/-- Look at one observer; those that have to be looked at next are returned. -/
def wake (engine : Engine) : Observer → Infer (List Observer)
  | .call call => do
    engine.recalculate call
    pure []
  | .node node => do
    match ← change? node with
    | none => pure []
    | some type =>
      assign node type
      return ((← get).flow.get node).observers

/-- Look at waiting observers until none is left, at most `budget` in all. -/
def propagate (engine : Engine) : Nat → List Observer → Infer Unit
  | _, [] => pure ()
  | 0, _ :: _ => throw .outOfFuel
  | budget + 1, observer :: rest => do
    let woken ← wake engine observer
    propagate engine budget (woken ++ rest)

/-- Run a computation one propagation deeper; the depth is restored however it ends. -/
def deeper {α : Type} (x : Infer α) : Infer α := fun s =>
  match x s.enterWave with
  | .ok a s' => .ok a { s' with propagationDepth := s'.propagationDepth - 1 }
  | .error halt s' => .error halt { s' with propagationDepth := s'.propagationDepth - 1 }

/-- Tell the observers of a node that it has changed. -/
def notify (engine : Engine) (node : NodeId) : Infer Unit := do
  let entry := (← get).flow.get node
  unless entry.observers.isEmpty do
    deeper do
      let s ← get
      let limit := s.options.maxPropagationDepth
      if limit < s.propagationDepth then fail (.limitExceeded "type propagation" limit) entry.span
      else propagate engine engine.budget entry.observers

/-- Give a node a type and tell its observers. -/
def setType (engine : Engine) (node : NodeId) (type : TypeId) : Infer Unit := do
  assign node type
  notify engine node

/-- Derive the type of a node again. -/
def update (engine : Engine) (node : NodeId) : Infer Unit := do
  if let some type ← change? node then
    setType engine node type

/-- Let a node depend on more inputs. -/
def connect (engine : Engine) (node : NodeId) (inputs : List NodeId) : Infer Unit := do
  modifyFlow fun flow => inputs.foldl (fun flow input => flow.addEdge node input) flow
  update engine node

/-- Let a node depend on inputs no longer; its type stays. -/
def disconnect (node : NodeId) (inputs : List NodeId) : Infer Unit :=
  modifyFlow fun flow => inputs.foldl (fun flow input => flow.removeEdge node input) flow

end Callsite.Infer
