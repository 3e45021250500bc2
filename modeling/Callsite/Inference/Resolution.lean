import Callsite.Inference.Foreign
import Callsite.Inference.Instantiation
import Callsite.Inference.Synthesis

/-!
# Resolving calls

A call is resolved when all its inputs have a type, and again when one of these
types changes or a class appears below a hierarchy that it was resolved through.
What an earlier resolution bound is dropped first.  The receiver's type is taken
apart into owners, and each owner contributes the instances of its matches.
-/

namespace Callsite

/-! ## Owners -/

namespace TypeTable

/-- The members of a union; any other type is its only member. -/
def members (t : TypeTable) (type : TypeId) : List TypeId :=
  match t.shape type with
  | .union members => members
  | _ => [type]

/-- Whether `new` on a type makes objects: on metaclasses of classes other than pointers. -/
def isConstructible (t : TypeTable) (owner : TypeId) : Bool :=
  match t.shape owner with
  | .metaclass instances => t.isClass instances && !t.isPointer instances
  | _ => false

/-- Where the lookup for `super` starts: on the parent of an owner. -/
def superOwner? (owner : TypeId) : Build (Option TypeId) := do
  let t ← get
  match t.shape owner with
  | .metaclass instances =>
    match t.parent? instances with
    | some parent => some <$> metaclass parent
    | none => pure none
  | .hierarchy base => pure (t.parent? base)
  | _ => pure (t.parent? owner)

end TypeTable

namespace Infer

/-! ## Resolving on one owner -/

/-- The matches of a call outside of its owner, when the owner itself has none: a call without
receiver may mean a method of the program, and otherwise `method_missing` takes the call. -/
def fallbackMatches (call : CallId) (owner : TypeId) (name : String) (args : List TypeId)
    (own : MatchSet) : Infer MatchSet := do
  let site := (← get).call call
  let program ← build (TypeTable.lookupMatches .program name args site.hasBlock)
  if program.isEmpty
      && ((← get).types.firstMethod? owner "method_missing" site.hasBlock).isSome then
    defineForwarder call owner name args
  else if site.receiver.isNone && !program.isEmpty then pure program
  else pure own

/-- The matches of a call on an owner; constructors are made if need be. -/
def findMatches (call : CallId) (owner : TypeId) (name : String) : Infer MatchSet := do
  let s ← get
  let args := s.argTypes call
  let own ← build (TypeTable.lookupMatches owner name args (s.call call).hasBlock)
  if !own.isEmpty then pure own
  else if name = "new" && (← get).types.isConstructible owner then
    defineConstructors call owner args
  else if owner ≠ .program then fallbackMatches call owner name args own
  else pure own

def instantiateAll (engine : Engine) (call : CallId) (selfType : Option TypeId)
    (set : MatchSet) : Infer (List InstanceId) :=
  set.found.mapM fun found => instantiate engine call found selfType

/-- Instantiate the matches found on an owner.  Without any the call fails, unless the owner
does not return: then the call waits. -/
def settle (engine : Engine) (call : CallId) (owner : TypeId) (selfType : Option TypeId)
    (name : String) (set : MatchSet) : Infer (List InstanceId) := do
  if !set.isEmpty then instantiateAll engine call selfType set
  else if owner = .noReturn then
    modifyCall call fun site => { site with deferred := true }
    pure []
  else failUnresolved call set.owner name set

/-- Resolve a call on an owner that is no hierarchy. -/
def resolveConcrete (engine : Engine) (call : CallId) (selfType : Option TypeId) (name : String)
    (owner : TypeId) : Infer (List InstanceId) := do
  settle engine call owner selfType name (← findMatches call owner name)

/-- Resolve a call on every concrete class at or below a base, or on their metaclasses. -/
def resolveBelow (engine : Engine) (call : CallId) (selfType : Option TypeId) (name : String)
    (base : TypeId) (onMeta : Bool) : Infer (List InstanceId) := do
  watch call base
  let hierarchy ← build (TypeTable.hierarchy base)
  let classes := (← get).types.concreteTypes hierarchy
  let targets ← classes.mapM fun cls => do
    let owner ← if onMeta then build (TypeTable.metaclass cls) else pure cls
    resolveConcrete engine call selfType name owner
  pure targets.flatten

/-- Resolve a call on one owner.  An abstract class without a match is taken for its
hierarchy. -/
def resolveOn (engine : Engine) (call : CallId) (selfType : Option TypeId) (name : String)
    (owner : TypeId) : Infer (List InstanceId) := do
  match (← get).types.shape owner with
  | .hierarchy base => resolveBelow engine call selfType name base false
  | .hierarchyMetaclass base => resolveBelow engine call selfType name base true
  | _ =>
    let set ← findMatches call owner name
    if set.isEmpty && (← get).types.isAbstract owner then
      let targets ← resolveBelow engine call selfType name owner false
      if targets.isEmpty then failUnresolved call owner name set
      else pure targets
    else settle engine call owner selfType name set

/-! ## `super` -/

/-- Resolve `super`: the method around the call, looked up on the parent of its owner. -/
def resolveSuper (engine : Engine) (call : CallId) : Infer (List InstanceId) := do
  let s ← get
  let site := s.call call
  let scope := s.scope (s.bodyScope site.scope)
  match scope.method with
  | none => fail (.undefinedMethod "super" none) site.span
  | some id =>
    let method := s.types.method id
    match ← build (TypeTable.superOwner? method.owner) with
    | some parent => resolveOn engine call (some scope.selfType) method.name parent
    | none =>
      fail (.undefinedMethod method.name (some (s.types.name method.owner))) site.span

/-! ## One resolution -/

/-- Let go of the body of a block, and of the bases that a call watches. -/
def release (call : CallId) (body : Option NodeId) : Infer Unit := do
  if let some body := body then
    modifyFlow (·.setFrozen body false)
    let _ ← takeOutput body
  modify fun s => { s with watch := s.watch.removeCall call }

/-- Open a call again for the given types of its inputs, and drop what an earlier resolution has
bound. -/
def reopen (call : CallId) (signature : List TypeId) : Infer Unit := do
  let s ← get
  let site := s.call call
  modifyCall call (·.opened signature)
  disconnect site.node (s.resultNodes site.resolved)
  modifyFlow fun flow =>
    (site.paramEdges ++ site.blockEdges).foldl
      (fun flow (node, input) => flow.removeEdge node input) flow
  release call (site.block.bind (·.visit.node?))

def blockArgNames (count : Nat) : List String :=
  (List.range count).map fun i => "#arg" ++ toString i

/-- The body that passes everything on to a function. -/
def blockArgBody (names : List String) (span : Span) : Expr :=
  let var (name : String) : Expr := ⟨.var name, span⟩
  ⟨.call (.plain (some (var "#fn")) "call" (names.map var)), span⟩

/-- A function that is passed with `&` becomes a block that calls it. -/
def expandBlockArg (call : CallId) : Infer Unit := do
  let s ← get
  let site := s.call call
  match site.blockArg, site.blockArg.bind s.typeOf with
  | some blockArg, some type =>
    match s.types.shape type with
    | .function args _ =>
      let scope ← childScope site.scope
      bindVar scope "#fn" blockArg
      let names := blockArgNames args.length
      let params ← names.mapM (newVar scope site.span)
      modifyCall call fun site =>
        { site with
          block := some ⟨params, names, some (blockArgBody names site.span), scope, .pending⟩ }
    | _ => fail (.notFunction (s.types.name type)) site.span
  | _, _ => pure ()

/-- Let a call watch the hierarchies among the types of its arguments. -/
def watchArguments (call : CallId) : Infer Unit := do
  let s ← get
  if s.options.observeArguments then
    ((s.argTypes call).flatMap s.types.members).forM fun member =>
      match s.types.shape member with
      | .hierarchy base => watch call base
      | _ => pure ()

/-- The instances that a call means, given the type of its receiver. -/
def resolve (engine : Engine) (call : CallId) (receiver : Option TypeId) :
    Infer (List InstanceId) := do
  let s ← get
  let site := s.call call
  match receiver with
  | some type =>
    let targets ← (s.types.members type).mapM (resolveOn engine call none site.name)
    pure targets.flatten
  | none =>
    if site.name = "super" then resolveSuper engine call
    else resolveOn engine call none site.name (s.scope site.scope).selfType

/-- Resolve a call for the given types of its inputs.  If the call has been resolved anew on
the way, that resolution stands. -/
def resolveFor (engine : Engine) (call : CallId) (receiver : Option TypeId)
    (signature : List TypeId) : Infer Unit := do
  reopen call signature
  expandBlockArg call
  watchArguments call
  let targets ← resolve engine call receiver
  let s ← get
  let site := s.call call
  if site.targets.isNone then
    modifyCall call fun site => { site with targets := some targets }
    connect engine site.node (s.resultNodes targets)

/-- Resolve a call without `out` arguments, if its inputs have types and these have changed.  An
argument that does not return makes the call not return. -/
def recalculateInputs (engine : Engine) (call : CallId) (receiver : Option TypeId) :
    Infer Unit := do
  let s ← get
  let site := s.call call
  if site.argNodes.any fun arg => s.typeOf arg == some .noReturn then
    setType engine site.node .noReturn
  else
    match s.inputTypes? call with
    | none => pure ()
    | some signature =>
      unless site.signature = some signature do
        resolveFor engine call receiver signature

/-- Resolve a call that is not foreign. -/
def recalculatePlain (engine : Engine) (call : CallId) (receiver : Option TypeId) :
    Infer Unit := do
  let site := (← get).call call
  if site.receiver.isNone || receiver.isSome then forbidOut call
  recalculateInputs engine call receiver

/-- Resolve a call if its inputs have types and these have changed. -/
def recalculateWith (engine : Engine) (call : CallId) : Infer Unit := do
  let s ← get
  let receiver := (s.call call).receiver.bind s.typeOf
  match receiver with
  | some type =>
    known type
    match s.types.shape type with
    | .library info => recalculateForeign engine call type info
    | _ => recalculatePlain engine call receiver
  | none => recalculatePlain engine call receiver

/-- Resolve a call again, whatever the types of its inputs were. -/
def resolveAnew (engine : Engine) (call : CallId) : Infer Unit := do
  modifyCall call fun site => { site with signature := none }
  engine.recalculate call

/-- Resolve the calls again that watch an ancestor of a new class. -/
def noticeSubclass (engine : Engine) (cls : TypeId) : Infer Unit := do
  let s ← get
  let calls := s.watch.observersOfAny ((s.types.ancestors cls).drop 1)
  calls.forM (resolveAnew engine)

end Infer

end Callsite
