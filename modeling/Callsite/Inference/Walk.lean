import Callsite.Inference.Resolution
import Callsite.Types.Declare

/-!
# Walking through expressions

Every expression gets a node.  Literals have their type at once, variables are
the union of what is assigned to them, and a call becomes a call site that
observes its inputs.  Declarations enter the table of types and are worth `nil`.
-/

namespace Callsite.Infer

/-- The type that an expression means in a scope. -/
def denoteIn (scope : ScopeId) (span : Span) (type : TypeExpr) : Infer TypeId := do
  let sc := (← get).scope scope
  denoting (TypeTable.denote sc.selfType sc.free span type)

/-- The variable of a name, declared in the scope if none is seen from there. -/
def declareVar (scope : ScopeId) (name : String) (span : Span) : Infer NodeId := do
  match (← get).findVar? scope name with
  | some node => pure node
  | none => newVar scope span name

/-- A node that derives its type from inputs. -/
def derived (engine : Engine) (rule : Rule) (span : Span) (inputs : List NodeId) :
    Infer NodeId := do
  let node ← ruledNode rule span
  connect engine node inputs
  pure node

/-! ## Calls -/

/-- An argument; `out x` declares the variable. -/
def visitArg (engine : Engine) (scope : ScopeId) (arg : Expr) : Infer Argument := do
  match arg.form with
  | .out name => pure ⟨← declareVar scope name arg.span, true, arg.span⟩
  | _ => pure ⟨← engine.visit scope arg, false, arg.span⟩

/-- The arguments of a bare `super`: the parameters of the method around it. -/
def superArgs (engine : Engine) (scope : ScopeId) (span : Span) : Infer (List Argument) := do
  let s ← get
  let body := s.scope (s.bodyScope scope)
  match body.method with
  | none => pure []
  | some method =>
    let vars := (s.types.method method).decl.params.filterMap fun param => body.vars.get? param.name
    vars.mapM fun var => do pure ⟨← derived engine .union span [var], false, span⟩

/-- The block of a call, with a scope and a node for each parameter. -/
def openBlock (scope : ScopeId) (span : Span) (block : Block) : Infer BlockSite := do
  let inner ← childScope scope
  let params ← block.params.mapM (newVar inner span)
  pure ⟨params, block.params, block.body, inner, .pending⟩

/-- Whether a call is `super` alone, which passes the parameters on. -/
def isBareSuper (call : Call) : Bool :=
  call.name == "super" && call.receiver.isNone && call.args.isEmpty && !call.hasParens

/-- The call site of a call with its receiver and its arguments, and a first attempt to resolve
it. -/
def enterCall (engine : Engine) (scope : ScopeId) (call : Call) (span : Span)
    (receiver : Option NodeId) (args : List Argument) : Infer NodeId := do
  let block ← call.block.mapM (openBlock scope span)
  let blockArg ← call.blockArg.mapM (engine.visit scope)
  let node ← newNode span
  let id ← pushCall
    { CallSite.fresh node call.name receiver scope span with
      args, block, blockArg, hasParens := call.hasParens }
  let observed := receiver.toList ++ args.map (·.node) ++ blockArg.toList
  modifyFlow fun flow =>
    observed.foldl (fun flow input => flow.addObserver input (.call id)) flow
  engine.recalculate id
  pure node

/-- A call. -/
def visitCall (engine : Engine) (scope : ScopeId) (call : Call) (span : Span) :
    Infer NodeId := do
  let receiver ← call.receiver.mapM (engine.visit scope)
  let args ←
    if isBareSuper call then superArgs engine scope span
    else call.args.mapM (visitArg engine scope)
  enterCall engine scope call span receiver args

/-! ## Declarations -/

/-- The owner of the methods of a scope, or its metaclass. -/
def methodOwner (scope : ScopeId) (onSelf : Bool) : Infer TypeId := do
  let owner := ((← get).scope scope).methodOwner
  if onSelf then build (TypeTable.metaclass owner) else pure owner

def visitMethod (scope : ScopeId) (decl : MethodDecl) : Infer Unit := do
  let owner ← methodOwner scope decl.onSelf
  let _ ← build (TypeTable.register owner decl .user)

/-- A class is declared, its body is walked through, and then the calls that watch an ancestor
are resolved again if the class is new. -/
def enterClass (engine : Engine) (decl : ClassDecl) (parent : Option TypeId) : Infer Unit := do
  let (cls, created) ←
    build (TypeTable.declareClass decl.name parent decl.isAbstract decl.typeVars)
  let metaType ← build (TypeTable.metaclass cls)
  let body ← pushScope (.top metaType cls)
  decl.body.forM fun expr => do let _ ← engine.visit body expr
  if created then noticeSubclass engine cls

/-- A class with its parent, which has to be a type if the class is new. -/
def visitClass (engine : Engine) (scope : ScopeId) (decl : ClassDecl) (span : Span) :
    Infer Unit := do
  let parent ← decl.superclass.mapM (denoteIn scope span)
  if ((← get).types.declaredClass? decl.name).isNone then
    parent.toList.forM known
  enterClass engine decl parent

/-- Names with the types that are declared for them. -/
def denoteFields (library : TypeId) (span : Span) (fields : List (String × TypeExpr)) :
    Infer (List (String × TypeId)) :=
  fields.mapM fun (name, type) => do
    pure (name, ← denoting (TypeTable.denote library .empty span type))

/-- A library is declared with its structs and functions. -/
def visitLibrary (decl : LibraryDecl) (span : Span) : Infer Unit := do
  let library ← build (TypeTable.declareLibrary decl.name)
  decl.structs.forM fun struct => do
    let fields ← denoteFields library span struct.fields
    let _ ← build (TypeTable.declareStruct library struct.name fields)
  decl.functions.forM fun function => do
    let params ← denoteFields library span function.params
    let result ← denoting (TypeTable.denoteResult library .empty span function.result)
    let _ ← build
      (TypeTable.declareExternal library function.name params result function.variadic)

/-! ## Expressions -/

/-- A variable with a fixed type. -/
def typedVar (scope : ScopeId) (span : Span) (name : String) (type : TypeId) : Infer TypeId := do
  let node ← typedNode type span
  bindVar scope name node
  pure type

/-- A parameter of a function literal, whose type is `Nil` unless it is declared. -/
def functionParam (outer inner : ScopeId) (span : Span) (param : Param) : Infer TypeId := do
  let type ←
    match param.restriction with
    | some restriction => denoteIn outer span restriction
    | none => pure .nil
  typedVar inner span param.name type

/-- The value of a name: a variable that is seen from the scope, or a call without arguments. -/
def visitVar (engine : Engine) (scope : ScopeId) (name : String) (span : Span) :
    Infer NodeId := do
  match (← get).findVar? scope name with
  | some var => derived engine .union span [var]
  | none => visitCall engine scope (.plain none name []) span

/-- A function literal, whose body is walked through at once. -/
def visitFunction (engine : Engine) (scope : ScopeId) (params : List Param) (body : Expr)
    (span : Span) : Infer NodeId := do
  let inner ← childScope scope
  let types ← params.mapM (functionParam scope inner span)
  let result ← engine.visit inner body
  derived engine (.function types) span [result]

/-- Look at an expression and give its node. -/
def visitWith (engine : Engine) (scope : ScopeId) (expr : Expr) : Infer NodeId := do
  let span := expr.span
  match expr.form with
  | .nil => typedNode .nil span
  | .bool _ => typedNode .bool span
  | .int _ => typedNode .int32 span
  | .char _ => typedNode .char span
  | .str _ => typedNode .string span
  | .symbol _ => typedNode .symbol span
  | .array items => derived engine .array span (← items.mapM (engine.visit scope))
  | .var name => visitVar engine scope name span
  | .selfRef => typedNode ((← get).scope scope).selfType span
  | .assign target value =>
    let value ← engine.visit scope value
    let var ← declareVar scope target span
    connect engine var [value]
    pure value
  | .out _ => fail .outOutsideForeignCall span
  | .path type =>
    let type ← denoteIn scope span type
    typedNode (← build (TypeTable.metaclass type)) span
  | .call call => visitCall engine scope call span
  | .yield args => visitYield engine scope args span
  | .seq items =>
    let nodes ← items.mapM (engine.visit scope)
    match nodes.getLast? with
    | some last => pure last
    | none => typedNode .nil span
  | .branch test yes no =>
    let _ ← engine.visit scope test
    let yes ← engine.visit scope yes
    let no ← engine.visit scope no
    derived engine .union span [yes, no]
  | .method decl =>
    visitMethod scope decl
    typedNode .nil span
  | .classDecl decl =>
    visitClass engine scope decl span
    typedNode .nil span
  | .library decl =>
    visitLibrary decl span
    typedNode .nil span
  | .primitive type => typedNode (← denoteIn scope span type) span
  | .allocate none =>
    let s ← get
    typedNode (s.types.instanceType (s.scope scope).selfType) span
  | .allocate (some type) => typedNode (← denoteIn scope span type) span
  | .function params body => visitFunction engine scope params body span
  | .classOf value => derived engine .metaclass span [← engine.visit scope value]

end Callsite.Infer
