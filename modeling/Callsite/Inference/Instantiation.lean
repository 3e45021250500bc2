import Callsite.Inference.Block

/-!
# Instantiation

A match becomes an instance: the one in the cache if there is one for the same
types, and otherwise a new one, whose body is inferred for them.  A method that
yields to a block it does not declare depends on the block of each call, so its
instances are not shared.
-/

namespace Callsite

/-- What a failure says about an instantiation under way. -/
def Session.frame (s : Session) (call : CallId) : String :=
  let site := s.call call
  let owner := (site.receiver.map (s.typeName · ++ "#")).getD ""
  "while instantiating '" ++ owner ++ site.name ++ "("
    ++ ", ".intercalate (site.argNodes.map s.typeName) ++ ")'"

namespace Infer

/-- Run a computation inside one more method body; the depth is restored however it ends. -/
def insideBody {α : Type} (x : Infer α) : Infer α := fun s =>
  match x s.enterBody with
  | .ok a s' => .ok a { s' with instantiationDepth := s'.instantiationDepth - 1 }
  | .error halt s' => .error halt { s' with instantiationDepth := s'.instantiationDepth - 1 }

/-- Run a computation inside one more method body, if the limit allows it. -/
def nested {α : Type} (span : Span) (x : Infer α) : Infer α := do
  let s ← get
  let limit := s.options.maxInstantiationDepth
  if limit ≤ s.instantiationDepth then fail (.limitExceeded "method instantiation" limit) span
  else insideBody x

/-- Remember that a parameter depends on an argument because of a call. -/
def recordParam (call : CallId) (param arg : NodeId) : Infer Unit :=
  modifyCall call fun site => { site with paramEdges := site.paramEdges ++ [(param, arg)] }

/-- A variable of a body with its first value. -/
def initVar (engine : Engine) (scope : ScopeId) (span : Span) (name : String) (value : NodeId) :
    Infer Unit := do
  let var ← newNode span
  connect engine var [value]
  bindVar scope name var

/-- The node of a parameter, which keeps the matched type, and its variable in the body. -/
def passParam (engine : Engine) (call : CallId) (scope : ScopeId) (span : Span) (name : String)
    (arg : NodeId) (type : TypeId) : Infer NodeId := do
  let pinned ← typedNode type span
  modifyFlow (·.addEdge pinned arg)
  recordParam call pinned arg
  initVar engine scope span name pinned
  pure pinned

/-- A parameter that the call leaves out gets its default value. -/
def defaultParam (engine : Engine) (scope : ScopeId) (span : Span) (param : Param) :
    Infer Unit := do
  let value ←
    match param.default with
    | some default => engine.visit scope default
    | none => pure .nil
  initVar engine scope span param.name value

/-- Make an instance of a match, with its parameters but without its body.  The scope of the
body is made first, with the id that the instance is going to have. -/
def makeInstance (engine : Engine) (call : CallId) (found : Match) (selfType : TypeId)
    (blockInputs : Option (List NodeId)) : Infer InstanceId := do
  let s ← get
  let decl := (s.types.method found.method).decl
  let scope ← pushScope
    { parent := none
      vars := .empty
      selfType
      methodOwner := found.owner
      inst := some ⟨s.instances.size⟩
      call := some call
      free := found.free
      blockInputs
      method := some found.method }
  let node ← newNode decl.span
  let id ← pushInstance
    { method := found.method
      owner := found.owner
      selfType
      args := found.args
      params := []
      node
      body := none
      kind := found.kind
      scope := some scope
      free := found.free }
  let args := ((← get).call call).argNodes
  let params ← (decl.params.zip (args.zip found.args)).mapM fun (param, arg, type) =>
    passParam engine call scope decl.span param.name arg type
  modifyInstance id fun inst => { inst with params }
  (decl.params.drop args.length).forM (defaultParam engine scope decl.span)
  pure id

/-- The result of an instance comes from its body. -/
def setBody (engine : Engine) (id : InstanceId) (node body : NodeId) : Infer Unit := do
  modifyInstance id fun inst => { inst with body := some body }
  connect engine node [body]

/-- Look at the body of an instance and connect its result. -/
def visitBody (engine : Engine) (id : InstanceId) : Infer Unit := do
  let s ← get
  let inst := s.instanceAt id
  let decl := (s.types.method inst.method).decl
  let body ←
    match decl.body, inst.scope with
    | some body, some scope => nested decl.span (engine.visit scope body)
    | _, _ => pure .nil
  setBody engine id inst.node body

/-- Bind the parameters of a shared instance to the arguments of a call. -/
def bindParams (engine : Engine) (call : CallId) (id : InstanceId) : Infer Unit := do
  let s ← get
  let pairs := (s.instanceAt id).params.zip (s.call call).argNodes
  pairs.forM fun (param, arg) => do
    recordParam call param arg
    connect engine param [arg]

/-- Answer a request with a shared instance, and remember it. -/
def answer (request : Request) (id : InstanceId) : Infer InstanceId :=
  modifyGet fun s => (id, { s with answers := (request, id) :: s.answers })

/-- The shared instance for a request: the one in the cache, or a new one. -/
def share (engine : Engine) (call : CallId) (frame : String) (request : Request)
    (make : Infer InstanceId) : Infer InstanceId := do
  match ← askCache request.key with
  | some id =>
    within frame (bindParams engine call id)
    answer request id
  | none =>
    let id ← make
    insertCache request.key id
    within frame (visitBody engine id)
    answer request id

/-- The instance for a match.  Calls of `super` keep the type of `self`, which is then part
of the key. -/
def instantiate (engine : Engine) (call : CallId) (found : Match) (selfType : Option TypeId) :
    Infer InstanceId := do
  let (found, blockInputs) ← matchBlock engine call found
  let s ← get
  let declares := (s.types.method found.method).decl.blockParam.isSome
  let block := (s.call call).block
  let make := makeInstance engine call found (selfType.getD found.owner) blockInputs
  if block.isNone || declares then
    let blockType := if declares then block.bind fun b => b.visit.node?.bind s.typeOf else none
    share engine call (s.frame call)
      ⟨found.method, found.owner, selfType, found.args, blockType⟩ make
  else
    let id ← make
    within (s.frame call) (visitBody engine id)
    pure id

end Infer

end Callsite
