import Callsite.Diagnostic

/-!
# Failures

Inference stops at the first thing it cannot make sense of.  The cause says what
it was; a failure adds where it was found, where the offending type came from,
and which methods were being instantiated on the way.
-/

namespace Callsite

/-- Why inference stopped.  Types and methods appear by the names messages show. -/
inductive Cause where
  | undefinedMethod (name : String) (owner : Option String)
  | undefinedName (name : String)
  | arityMismatch (name : String) (given : Nat) (expected : List String)
  /-- A block was given and not wanted, or wanted and not given. -/
  | blockMismatch (name : String) (blockGiven : Bool)
  | noOverload (name : String) (args overloads missing : List String)
  | typeArgumentCount (name : String) (given expected : Nat)
  | notGeneric (name : String)
  | unknownConstant (name : String)
  | blockResult (expected found : String)
  | foreignArgument (index : Nat) (function expected found : String)
  | foreignField (struct field expected found : String)
  | unknownField (struct field : String)
  | notFunction (found : String)
  | outNotPointer (index : Nat) (function : String)
  | outOutsideForeignCall
  | limitExceeded (what : String) (limit : Nat)
  deriving DecidableEq, Repr, Inhabited

namespace Cause

/-- The code that names a kind of cause. -/
def code : Cause → String
  | .unknownConstant _ => "E0203"
  | .typeArgumentCount _ _ _ => "E0204"
  | .notGeneric _ => "E0205"
  | .blockResult _ _ => "E0206"
  | .notFunction _ => "E0207"
  | .foreignArgument _ _ _ _ => "E0501"
  | .foreignField _ _ _ _ => "E0502"
  | .unknownField _ _ => "E0503"
  | .outNotPointer _ _ => "E0504"
  | .outOutsideForeignCall => "E0505"
  | .noOverload _ _ _ _ => "E0601"
  | .arityMismatch _ _ _ => "E0602"
  | .undefinedMethod _ _ => "E0603"
  | .undefinedName _ => "E0604"
  | .blockMismatch _ _ => "E0605"
  | .limitExceeded _ _ => "E0701"

def bullets (items : List String) : String :=
  String.join (items.map ("\n - " ++ ·))

/-- The text of a cause. -/
def message : Cause → String
  | .undefinedMethod name owner =>
    s!"undefined method '{name}'" ++ (owner.map (" for " ++ ·)).getD ""
  | .undefinedName name => s!"undefined local variable or method '{name}'"
  | .arityMismatch name given expected =>
    let counts := ", ".intercalate expected
    s!"wrong number of arguments for '{name}' ({given} for {counts})"
  | .blockMismatch name true =>
    s!"'{name}' is not expected to be invoked with a block, but a block was given"
  | .blockMismatch name false =>
    s!"'{name}' is expected to be invoked with a block, but no block was given"
  | .noOverload name args overloads missing =>
    s!"no overload matches '{name}'"
      ++ (if args.isEmpty then "" else " with types " ++ ", ".intercalate args)
      ++ "\nOverloads are:" ++ bullets overloads
      ++ (if missing.isEmpty then ""
          else "\nCouldn't find overloads for these types:" ++ bullets missing)
  | .typeArgumentCount name given expected =>
    s!"wrong number of type vars for {name} ({given} for {expected})"
  | .notGeneric name => s!"{name} is not a generic class"
  | .unknownConstant name => s!"uninitialized constant {name}"
  | .blockResult expected found => s!"block expected to return {expected}, not {found}"
  | .foreignArgument index function expected found =>
    s!"argument #{index} to {function} must be {expected}, not {found}"
  | .foreignField struct field expected found =>
    s!"field '{field}' of struct {struct} has type {expected}, not {found}"
  | .unknownField struct field => s!"struct {struct} has no field '{field}'"
  | .notFunction found => s!"expected a function type, not {found}"
  | .outNotPointer index function =>
    s!"argument #{index} to {function} cannot be passed as 'out' because it is not a pointer"
  | .outOutsideForeignCall => "out can only be used with lib funs"
  | .limitExceeded what limit => s!"{what} exceeded the limit of {limit}"

end Cause

/-- A cause with its circumstances. -/
structure Failure where
  cause : Cause
  span : Span
  help : Option String
  /-- Where the offending type came from, the nearest place first. -/
  trace : List Span
  /-- The instantiations that were under way, the innermost first. -/
  frames : List String
  deriving DecidableEq, Repr, Inhabited

namespace Failure

/-- A failure that nothing is known about but its cause and place. -/
def of (cause : Cause) (span : Span) : Failure :=
  ⟨cause, span, none, [], []⟩

/-- The failure seen from one instantiation further out. -/
def within (f : Failure) (frame : String) : Failure :=
  { f with frames := f.frames ++ [frame] }

/-- The message with the frames, one a line. -/
def text (f : Failure) : String :=
  f.cause.message ++ String.join (f.frames.map ("\n" ++ ·))

/-- How a failure is shown. -/
def toDiagnostic (f : Failure) : Diagnostic where
  severity := .error
  code := some f.cause.code
  message := f.cause.message
  span := f.span
  remarks := f.trace.map fun span => ⟨span, "type comes from here"⟩
  notes := f.frames
  suggestions := f.help.toList

end Failure

end Callsite
