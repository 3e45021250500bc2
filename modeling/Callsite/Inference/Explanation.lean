import Callsite.Inference.Engine
import Callsite.Method.Lookup

/-!
# Why a call does not resolve

The most specific explanation is given: a field that a struct does not have, a
name that does not exist, a number of arguments that no method takes, a block
that is missing or not wanted, and last the list of overloads with the argument
types that none of them covers.
-/

namespace Callsite

/-- How many arguments a method takes, as messages say it. -/
def MethodDecl.arityText (d : MethodDecl) : String :=
  if d.requiredParams = d.params.length then toString d.params.length
  else toString d.requiredParams ++ ".." ++ toString d.params.length

/-- The field that an accessor reads or writes; the writer's name ends in `=`. -/
def fieldOf (accessor : String) : String :=
  match accessor.toList.reverse with
  | '=' :: rest => String.ofList rest.reverse
  | _ => accessor

/-- The distinct items of a list, in the order of first occurrence. -/
def distinct {α : Type} [BEq α] (items : List α) : List α :=
  items.foldl (fun found item => if found.contains item then found else found ++ [item]) []

namespace TypeTable

/-- A parameter with its restriction; a type parameter of the owner is named by its argument. -/
def paramText (t : TypeTable) (owner : TypeId) (param : Param) : String :=
  match param.restriction with
  | none => param.name
  | some restriction =>
    let bound := restriction.singleName.bind (t.typeArgument? owner)
    param.name ++ " : " ++ (bound.map t.name).getD (t.exprText restriction)

/-- A method with its parameters. -/
def overloadText (t : TypeTable) (owner : TypeId) (fullName : String) (m : Method) : String :=
  let block :=
    match m.yields, m.decl.blockParam with
    | none, _ => []
    | some _, some declared => [declared.text]
    | some _, none => ["&block"]
  fullName ++ "(" ++ ", ".intercalate (m.decl.params.map (t.paramText owner) ++ block) ++ ")"

/-- The names of the parameters, if all overloads have the same. -/
def sharedNames (methods : List Method) : List String :=
  match distinct (methods.map fun m => m.decl.params.map (·.name)) with
  | [names] => names
  | _ => []

/-- The call that no overload covers. -/
def missingText (t : TypeTable) (fullName : String) (names : List String) (hasBlock : Bool)
    (tuple : List TypeId) : String :=
  let args := tuple.mapIdx fun i type =>
    match names[i]? with
    | some name => name ++ " : " ++ t.name type
    | none => t.name type
  fullName ++ "(" ++ ", ".intercalate args ++ (if hasBlock then ", &block" else "") ++ ")"

end TypeTable

namespace Session

/-- A call on a struct: the field is not there, or the value does not fit it. -/
def explainField (s : Session) (site : CallSite) (info : StructInfo) (name : String) : Failure :=
  let field := fieldOf name
  match info.field? field, site.args.head? with
  | some expected, some arg =>
    .of (.foreignField info.name field (s.types.name expected) (s.typeName arg.node)) arg.span
  | _, _ => .of (.unknownField info.name field) site.span

/-- A name that does not exist, with a name that was perhaps meant. -/
def explainUnknown (s : Session) (site : CallSite) (owner : TypeId) (name : String) : Failure :=
  let trace :=
    match site.receiver with
    | some receiver =>
      if (s.typeOf receiver).any s.types.isUnion then s.flow.trace s.types receiver owner else []
    | none => []
  if site.receiver.isSome || owner != .program then
    let similar :=
      if s.options.suggestions then
        s.types.similarName? owner name site.args.length site.hasBlock
      else none
    { Failure.of (.undefinedMethod name (some (s.types.name owner))) site.span with
      help := similar.map Spelling.help
      trace }
  else if !site.args.isEmpty || site.hasParens then
    { Failure.of (.undefinedMethod name none) site.span with trace }
  else { Failure.of (.undefinedName name) site.span with trace }

/-- Methods of the name exist, but none fits the arguments. -/
def explainMismatch (s : Session) (site : CallSite) (owner : TypeId) (name : String)
    (methods : List Method) (missing : List (List TypeId)) : Cause :=
  let fullName := s.fullName owner name
  let fitting := methods.filter fun m => m.decl.acceptsArity site.args.length
  if fitting.isEmpty then
    .arityMismatch fullName site.args.length (distinct (methods.map (·.decl.arityText)))
  else if site.hasBlock && fitting.all (·.yields.isNone) then .blockMismatch fullName true
  else if !site.hasBlock && fitting.all (·.yields.isSome) then .blockMismatch fullName false
  else
    .noOverload fullName (site.argNodes.map s.typeName)
      (methods.map (s.types.overloadText owner fullName))
      (missing.map
        (s.types.missingText fullName (TypeTable.sharedNames methods) site.hasBlock))

/-- Why a call does not resolve on an owner. -/
def explain (s : Session) (call : CallId) (owner : TypeId) (name : String)
    (missing : List (List TypeId)) : Failure :=
  let site := s.call call
  match s.types.shape owner with
  | .cstruct info => s.explainField site info name
  | _ =>
    match (s.types.methodsNamed owner name).map s.types.method with
    | [] => s.explainUnknown site owner name
    | methods => .of (s.explainMismatch site owner name methods missing) site.span

end Session

/-- Stop because a call does not resolve. -/
def Infer.failUnresolved {α : Type} (call : CallId) (owner : TypeId) (name : String)
    (set : MatchSet) : Infer α := do
  throw (.failed ((← get).explain call owner name set.missing))

end Callsite
