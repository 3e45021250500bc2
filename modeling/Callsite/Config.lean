/-!
# Settings

The settings of a run: limits and switches of inference, and how diagnostics are
shown.
-/

namespace Callsite

/-- Limits and switches of inference. -/
structure InferenceOptions where
  /-- How deep method bodies may be instantiated inside each other. -/
  maxInstantiationDepth : Nat
  /-- How deep propagations may run inside each other. -/
  maxPropagationDepth : Nat
  /-- Whether an undefined name comes with the name that was perhaps meant. -/
  suggestions : Bool
  /-- Whether a call is resolved again when a class appears below the type of an argument. -/
  observeArguments : Bool
  deriving DecidableEq, Repr

structure DiagnosticOptions where
  color : Bool
  /-- Whether the places that an offending type came from are shown. -/
  showTrace : Bool
  deriving DecidableEq, Repr

structure Config where
  inference : InferenceOptions
  diagnostics : DiagnosticOptions
  deriving DecidableEq, Repr

instance : Inhabited InferenceOptions := ⟨⟨256, 1024, true, true⟩⟩

instance : Inhabited DiagnosticOptions := ⟨⟨true, true⟩⟩

instance : Inhabited Config := ⟨⟨default, default⟩⟩

namespace Config

def limitMessage (key : String) : String :=
  "invalid value for inference." ++ key ++ ": must be at least 1"

/-- What is wrong with the values of the settings, if anything: both limits have to be positive. -/
def problem? (c : Config) : Option String :=
  if c.inference.maxInstantiationDepth = 0 then some (limitMessage "max_instantiation_depth")
  else if c.inference.maxPropagationDepth = 0 then some (limitMessage "max_propagation_depth")
  else none

end Config

end Callsite
