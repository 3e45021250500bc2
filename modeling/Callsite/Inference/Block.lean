import Callsite.Inference.Propagation

/-!
# Blocks and `yield`

The body of a block is looked at once, when it is first needed.  A method may
declare its block: then the declaration gives the types of the block's parameters,
and the body has to have the declared result and is frozen.  Otherwise the
parameters follow the values that are yielded.
-/

namespace Callsite.Infer

/-- The parameters with what is supplied for them; `nil` where nothing is. -/
def supplied (params sources : List NodeId) : List (NodeId × NodeId) :=
  params.mapIdx fun i param => (param, sources[i]?.getD .nil)

/-- The node of the body of a block.  A block without a body is `nil`. -/
def blockResult (engine : Engine) (block : BlockSite) (span : Span) : Infer NodeId :=
  match block.body with
  | some body => engine.visit block.scope body
  | none => typedNode .nil span

/-- Look at the body of a call's block, unless that has been started already, and give its
node. -/
def visitBlock (engine : Engine) (call : CallId) : Infer (Option NodeId) := do
  let site := (← get).call call
  match site.block with
  | none => pure none
  | some block =>
    match block.visit with
    | .started => pure none
    | .finished node => pure (some node)
    | .pending =>
      modifyCall call (·.visited .started)
      let node ← blockResult engine block site.span
      modifyCall call (·.visited (.finished node))
      pure (some node)

/-- The node of a declared block parameter; an abstract class stands for its hierarchy. -/
def declaredInput (owner : TypeId) (free : Bindings) (span : Span) (input : TypeExpr) :
    Infer NodeId := do
  let type ← denoting (TypeTable.denote owner free span input)
  if (← get).types.isAbstract type then
    typedNode (← build (TypeTable.hierarchy type)) span
  else typedNode type span

/-- Bind a block parameter to what the method declares for it. -/
def bindDeclared (engine : Engine) (call : CallId) (param source : NodeId) : Infer Unit := do
  modifyCall call fun site => { site with blockEdges := site.blockEdges ++ [(param, source)] }
  connect engine param [source]

/-- Check the body of a block against a declared result: at once if it has a type, and otherwise
as soon as it gets one. -/
def checkBody (body : NodeId) (declared : DeclaredOutput) : Infer Bindings := do
  match ← typeOf body with
  | some found => checkOutput body found declared
  | none =>
    modify fun s =>
      { s with outputs := (body, declared) :: s.outputs.filter fun entry => entry.1 != body }
    pure declared.free

/-- Hold the body of a block to a declared result. -/
def constrainBody (body : NodeId) (declared : DeclaredOutput) : Infer Bindings := do
  let free ← checkBody body declared
  modifyFlow (·.setFrozen body true)
  pure free

/-- Bind the block of a call to the block that the matched method declares.  The nodes of the
declared parameters come back if there is one, and the match comes back with the variables that
the block's result bound. -/
def matchBlock (engine : Engine) (call : CallId) (found : Match) :
    Infer (Match × Option (List NodeId)) := do
  let s ← get
  let site := s.call call
  let method := s.types.method found.method
  match method.decl.blockParam, method.yields, site.block with
  | some declared, some _, some block =>
    let sources ←
      (declared.inputs.getD []).mapM (declaredInput found.owner found.free site.span)
    (supplied block.params sources).forM fun (param, source) =>
      bindDeclared engine call param source
    let body ← visitBlock engine call
    match body, declared.output with
    | some body, some output =>
      let free ← constrainBody body ⟨output, found.owner, found.free⟩
      pure ({ found with free }, some sources)
    | _, _ => pure (found, some sources)
  | _, _, _ => pure (found, none)

/-- `yield`: the values go to the block of the call that the method is instantiated for, and
the result is that of the block.  Without a block it is `nil`. -/
def visitYield (engine : Engine) (scope : ScopeId) (args : List Expr) (span : Span) :
    Infer NodeId := do
  let values ← args.mapM (engine.visit scope)
  let s ← get
  let caller := (s.scope scope).call
  match caller, caller.bind fun call => (s.call call).block with
  | some call, some block =>
    unless (s.scope scope).blockInputs.isSome do
      (supplied block.params values).forM fun (param, source) => connect engine param [source]
    let node ← newNode span
    if let some body ← visitBlock engine call then
      connect engine node [body]
    pure node
  | _, _ => typedNode .nil span

end Callsite.Infer
