import Callsite.Inference.Propagation

/-!
# Calls of foreign functions

A call on a library resolves to exactly one function.  An argument has to have the
declared type, apart from three conversions: `nil` becomes a null pointer, a
string becomes a pointer to its characters, and a function may be taken for one
without result.  `out x` declares `x` with what the parameter points to.
-/

namespace Callsite

namespace TypeTable

/-- Whether a type is that of strings or of all classes below. -/
def isString (t : TypeTable) (type : TypeId) : Bool :=
  type == .string ||
    match t.shape type with
    | .hierarchy base => base == .string
    | _ => false

/-- Whether functions differ only in a result that is not wanted. -/
def isVoidCast (t : TypeTable) (actual expected : TypeId) : Bool :=
  match t.shape actual, t.shape expected with
  | .function args _, .function params result => result == .void && params == args
  | _, _ => false

/-- The conversion that turns an argument of another type into the expected one. -/
def conversion? (t : TypeTable) (actual expected : TypeId) : Option ConversionKind :=
  if actual == .nil && t.isPointer expected then some .nilToPointer
  else if t.isString actual && t.pointee? expected == some .char then some .stringToPointer
  else if t.isVoidCast actual expected then some .functionToVoid
  else none

end TypeTable

namespace Infer

/-- Only a foreign function takes `out` arguments. -/
def forbidOut (call : CallId) : Infer Unit := do
  if let some arg := ((← get).call call).args.find? (·.isOut) then
    fail .outOutsideForeignCall arg.span

/-- Give the variable of an `out` argument what the parameter points to. -/
def bindOut (engine : Engine) (function : String) (index : Nat) (param : TypeId)
    (arg : Argument) : Infer Unit := do
  if arg.isOut then
    match (← get).types.pointee? param with
    | none => fail (.outNotPointer (index + 1) function) arg.span
    | some pointee =>
      if (← typeOf arg.node) ≠ some pointee then
        let source ← typedNode pointee arg.span
        connect engine arg.node [source]

/-- The type that is passed for an argument: a pointer to the variable for `out x`. -/
def passedType (arg : Argument) (type : TypeId) : Infer TypeId :=
  if arg.isOut then build (TypeTable.pointerTo type) else pure type

/-- The conversion that an argument needs for its parameter, if it has a type. -/
def declaredConversion (function : String) (index : Nat) (expected : TypeId) (arg : Argument) :
    Infer (Option (Nat × ConversionKind × TypeId)) := do
  match ← typeOf arg.node with
  | none => pure none
  | some type =>
    let actual ← passedType arg type
    if actual = expected then pure none
    else
      let t := (← get).types
      match t.conversion? actual expected with
      | some kind => pure (some (index, kind, expected))
      | none =>
        fail (.foreignArgument (index + 1) function (t.name expected) (t.name actual)) arg.span

/-- The conversions of the arguments behind the declared parameters: strings become pointers. -/
def variadicConversions (external : External) (args : List Argument) :
    Infer (List (Nat × ConversionKind × TypeId)) := do
  if external.variadic then
    let charPointer ← build (TypeTable.pointerTo .char)
    let s ← get
    let declared := external.params.length
    pure <| (args.mapIdx fun i arg => (i, arg)).filterMap fun (i, arg) =>
      if declared ≤ i && s.typeOf arg.node == some .string then
        some (i, .stringToPointer, charPointer)
      else none
  else pure []

/-- The arguments of declared parameters, with positions and expected types. -/
def declaredArgs (external : External) (args : List Argument) :
    List (Nat × TypeId × Argument) :=
  (external.params.zip args).mapIdx fun i (param, arg) => (i, param.2, arg)

/-- The call of `cstr` that converts a string. -/
def convertString (engine : Engine) (scope : ScopeId) (arg : Argument) : Infer NodeId := do
  let node ← newNode arg.span
  let call ← pushCall (.fresh node "cstr" (some arg.node) scope arg.span)
  modifyFlow (·.addObserver arg.node (.call call))
  engine.recalculate call
  pure node

/-- Put the converted form of an argument in its place. -/
def replaceArg (call : CallId) (index : Nat) (kind : ConversionKind) (source node : NodeId) :
    Infer Unit := do
  modifyFlow fun flow => (flow.removeObserver source (.call call)).addObserver node (.call call)
  modifyCall call (·.converted index kind source node)

/-- Convert an argument. -/
def convert (engine : Engine) (call : CallId) (index : Nat) (kind : ConversionKind)
    (expected : TypeId) : Infer Unit := do
  let site := (← get).call call
  if let some arg := site.args[index]? then
    let converted ←
      match kind with
      | .stringToPointer => convertString engine site.scope arg
      | .nilToPointer | .functionToVoid => typedNode expected arg.span
    replaceArg call index kind arg.node converted

/-- Convert the arguments of a foreign call; nothing is converted unless all of them fit. -/
def convertArgs (engine : Engine) (call : CallId) (external : External) (function : String) :
    Infer Unit := do
  let args := ((← get).call call).args
  let declared ← (declaredArgs external args).mapM fun (i, expected, arg) =>
    declaredConversion function i expected arg
  let variadic ← variadicConversions external args
  (declared.filterMap id ++ variadic).forM fun (i, kind, expected) =>
    convert engine call i kind expected

/-- The instance of a foreign function, which all calls share. -/
def foreignInstance (library : TypeId) (external : External) : Infer InstanceId := do
  let args := external.params.map (·.2)
  let key : InstanceKey := ⟨external.method, library, args, none⟩
  match ← askCache key with
  | some id => pure id
  | none =>
    let span := ((← get).types.method external.method).decl.span
    let node ← typedNode external.result span
    let params ← args.mapM (typedNode · span)
    let id ← pushInstance
      { method := external.method
        owner := library
        selfType := library
        args
        params
        node
        body := none
        kind := .foreign
        scope := none
        free := .empty }
    insertCache key id
    pure id

/-- Convert the arguments of a call to a foreign function and resolve it. -/
def resolveConverted (engine : Engine) (call : CallId) (library : TypeId) (external : External)
    (function : String) : Infer Unit := do
  convertArgs engine call external function
  modify fun s =>
    { s with
      calls := s.calls.modify call.index fun site => { site with signature := s.inputTypes? call } }
  let target ← foreignInstance library external
  let s ← get
  let site := s.call call
  disconnect site.node (s.resultNodes site.resolved)
  modifyCall call fun site => { site with targets := some [target] }
  connect engine site.node [(s.instanceAt target).node]

/-- Resolve a call to a foreign function, if its inputs have types that have changed. -/
def resolveExternal (engine : Engine) (call : CallId) (library : TypeId) (external : External)
    (function : String) : Infer Unit := do
  let args := ((← get).call call).args
  (declaredArgs external args).forM fun (i, param, arg) => bindOut engine function i param arg
  let s ← get
  match s.inputTypes? call with
  | none => pure ()
  | some signature =>
    unless (s.call call).signature = some signature do
      resolveConverted engine call library external function

/-- Resolve a call on a library. -/
def recalculateForeign (engine : Engine) (call : CallId) (library : TypeId)
    (info : LibraryInfo) : Infer Unit := do
  let s ← get
  let site := s.call call
  match info.external? site.name with
  | none => fail (.undefinedMethod site.name (some info.name)) site.span
  | some external =>
    let given := site.args.length
    let declared := external.params.length
    if given = declared || (external.variadic && declared < given) then
      resolveExternal engine call library external (info.name ++ "." ++ external.name)
    else
      fail (.arityMismatch (s.fullName library site.name) given [toString declared]) site.span

end Infer

end Callsite
