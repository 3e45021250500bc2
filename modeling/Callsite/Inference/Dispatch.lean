import Callsite.Inference.Session

/-!
# Dispatch at run time

A call may resolve to several instances.  Which of them runs is decided by the
concrete types of receiver and arguments: the first that accepts them, in the order
of resolution.
-/

namespace Callsite

/-- What runs for one choice of concrete types. -/
structure DispatchRow where
  /-- The concrete type of the receiver, for a call that has one. -/
  receiver : Option TypeId
  args : List TypeId
  /-- The instance that runs, if one accepts these types. -/
  target : Option InstanceId
  deriving DecidableEq, Repr

/-- The tuples of concrete types of some types. -/
def TypeTable.concreteTuples (t : TypeTable) : List TypeId → List (List TypeId)
  | [] => [[]]
  | type :: rest =>
    (t.concreteTypes type).flatMap fun choice => (t.concreteTuples rest).map (choice :: ·)

namespace Session

/-- Whether an instance accepts concrete types of receiver and arguments. -/
def accepts (s : Session) (receiver : Option TypeId) (args : List TypeId) (id : InstanceId) :
    Bool :=
  let inst := s.instanceAt id
  receiver.all (s.types.includes inst.selfType)
    && inst.args.length == args.length
    && (inst.args.zip args).all fun (declared, actual) => s.types.includes declared actual

/-- The instance that runs for concrete types. -/
def dispatch (s : Session) (call : CallId) (receiver : Option TypeId) (args : List TypeId) :
    Option InstanceId :=
  (s.call call).resolved.find? (s.accepts receiver args)

/-- The concrete types of a receiver; a call without one has a single row. -/
def receivers (s : Session) (site : CallSite) : List (Option TypeId) :=
  match site.receiver.bind s.typeOf with
  | some type => (s.types.concreteTypes type).map some
  | none => [none]

/-- The dispatch table of a call; empty while an argument has no type. -/
def dispatchTable (s : Session) (call : CallId) : List DispatchRow :=
  let site := s.call call
  match site.argNodes.mapM s.typeOf with
  | none => []
  | some types =>
    (s.receivers site).flatMap fun receiver =>
      (s.types.concreteTuples types).map fun args =>
        ⟨receiver, args, s.dispatch call receiver args⟩

end Session

end Callsite
