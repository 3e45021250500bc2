import Callsite.Inference.Explanation

/-!
# Generated methods

Two kinds of methods are written on demand: `new`, which allocates an object and
forwards to `initialize`, and forwarders to `method_missing`.  They are registered
like any other method, so that later calls find them.
-/

namespace Callsite

/-- The names of generated parameters. -/
def argNames (count : Nat) : List String :=
  (List.range count).map fun i => "arg" ++ toString i

def argVars (names : List String) : List Expr :=
  names.map fun name => .generated (.var name)

/-- The constructor that allocates an object and does nothing else. -/
def allocatorDecl : MethodDecl :=
  .generated "new" [] (.generated (.allocate none))

/-- The constructor that forwards `count` arguments to an `initialize` with the given
parameters, whose restrictions it repeats. -/
def constructorDecl (count : Nat) (params : List Param) (allocated : Option TypeExpr) :
    MethodDecl :=
  let names := argNames count
  let self : Expr := .generated (.var "x")
  let own := names.mapIdx fun i name => { Param.plain name with
    restriction := params[i]?.bind (·.restriction) }
  .generated "new" own
    (.generated (.seq
      [ .generated (.assign "x" (.generated (.allocate allocated))),
        .generated (.call (.plain (some self) "initialize" (argVars names))),
        self ]))

/-- The method that passes its name and its arguments on to `method_missing`. -/
def forwarderDecl (name : String) (count : Nat) : MethodDecl :=
  let names := argNames count
  let passed : Form := if count = 0 then .nil else .array (argVars names)
  .generated name (names.map Param.plain)
    (.generated (.call (.plain none "method_missing"
      [.generated (.symbol name), .generated passed])))

namespace TypeTable

/-- The applied generic that a constructor allocates, when `initialize` binds all type
parameters of the class. -/
def allocation? (t : TypeTable) (cls : TypeId) (free : Bindings) : Option TypeExpr :=
  let vars := t.typeVars cls
  if vars.isEmpty || free.isEmpty || !vars.all free.contains then none
  else some (.generic (.resolved cls) (vars.map TypeExpr.named))

/-- The constructor for one `initialize`, as a match on the metaclass. -/
def constructorFor (metaType cls : TypeId) (count : Nat) (init : Match) : Build Match := do
  let t ← get
  let decl :=
    constructorDecl count (t.method init.method).decl.params (t.allocation? cls init.free)
  let method ← register metaType decl .constructor
  pure ⟨method, metaType, init.args, init.free, .constructor⟩

end TypeTable

namespace Infer

/-- Write the constructors of a class that a call needs: one for each `initialize` that
matches, or an allocator when there is no `initialize` at all. -/
def defineConstructors (call : CallId) (metaType : TypeId) (args : List TypeId) :
    Infer MatchSet := do
  let s ← get
  let site := s.call call
  let cls := s.types.instanceType metaType
  let inits ← build (TypeTable.lookupMatches cls "initialize" args site.hasBlock)
  if !inits.isEmpty then
    let found ← build (inits.found.mapM (TypeTable.constructorFor metaType cls args.length))
    return .complete found metaType
  let types := (← get).types
  if !(types.methodsNamed cls "initialize").isEmpty then
    failUnresolved call cls "initialize" inits
  if !args.isEmpty then
    fail (.arityMismatch (types.name cls ++ "#new") args.length ["0"]) site.span
  let method ← build (TypeTable.register metaType allocatorDecl .constructor)
  pure (.complete [⟨method, metaType, [], .empty, .constructor⟩] metaType)

/-- Write a method that forwards a call to `method_missing`. -/
def defineForwarder (call : CallId) (owner : TypeId) (name : String) (args : List TypeId) :
    Infer MatchSet := do
  let count := ((← get).call call).args.length
  let method ← build (TypeTable.register owner (forwarderDecl name count) .methodMissing)
  pure (.complete [⟨method, owner, args, .empty, .methodMissing⟩] owner)

end Infer

end Callsite
