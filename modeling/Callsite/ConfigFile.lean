import Callsite.Config
import Callsite.Json.Record
import Callsite.Toml.Reader

/-!
# Settings in files

Settings are written as a TOML document of two tables.  Every key may be left out
and then has its default; keys that are not known are skipped.
-/

namespace Callsite

/-- Why settings cannot be used. -/
inductive ConfigError where
  /-- The text is no document, or a value has the wrong type. -/
  | malformed
  | invalid (message : String)
  deriving DecidableEq, Repr

namespace Toml

/-- The settings in a table; they may also be an array of the values in order.  A date counts
as a table without settings. -/
def section? (names : List String) : Toml → Option Entries
  | .table _ entries => some entries
  | .arr items => some (names.zip items)
  | .moment => some []
  | _ => none

/-- The setting of a name; its default when it is left out. -/
def setting {α : Type} (entries : Entries) (name : String) (decode : Toml → Option α)
    (default : α) : Option α :=
  match entries.lookup name with
  | none => some default
  | some value => decode value

def bool? : Toml → Option Bool
  | .bool b => some b
  | _ => none

def nat? : Toml → Option Nat
  | .int i => if 0 ≤ i then some i.toNat else none
  | _ => none

end Toml

namespace InferenceOptions

def keys : List String :=
  ["max_instantiation_depth", "max_propagation_depth", "suggestions",
    "observe_argument_hierarchies"]

def ofToml? (t : Toml) : Option InferenceOptions := do
  let entries ← t.section? keys
  let base : InferenceOptions := default
  pure
    { maxInstantiationDepth :=
        ← Toml.setting entries "max_instantiation_depth" Toml.nat? base.maxInstantiationDepth
      maxPropagationDepth :=
        ← Toml.setting entries "max_propagation_depth" Toml.nat? base.maxPropagationDepth
      suggestions := ← Toml.setting entries "suggestions" Toml.bool? base.suggestions
      observeArguments :=
        ← Toml.setting entries "observe_argument_hierarchies" Toml.bool? base.observeArguments }

def ofJson? (j : Json) : Option InferenceOptions := do
  let r ← j.record? keys
  let base : InferenceOptions := default
  let limit := Json.natBelow? UInt64.size
  pure
    { maxInstantiationDepth :=
        ← r.defaulted "max_instantiation_depth" limit base.maxInstantiationDepth
      maxPropagationDepth := ← r.defaulted "max_propagation_depth" limit base.maxPropagationDepth
      suggestions := ← r.defaulted "suggestions" Json.bool? base.suggestions
      observeArguments :=
        ← r.defaulted "observe_argument_hierarchies" Json.bool? base.observeArguments }

def toToml (o : InferenceOptions) : String :=
  "[inference]\n"
    ++ "max_instantiation_depth = " ++ toString o.maxInstantiationDepth ++ "\n"
    ++ "max_propagation_depth = " ++ toString o.maxPropagationDepth ++ "\n"
    ++ "suggestions = " ++ toString o.suggestions ++ "\n"
    ++ "observe_argument_hierarchies = " ++ toString o.observeArguments ++ "\n"

def toJson (o : InferenceOptions) : Json :=
  .obj
    [ ("max_instantiation_depth", .int o.maxInstantiationDepth),
      ("max_propagation_depth", .int o.maxPropagationDepth),
      ("suggestions", .bool o.suggestions),
      ("observe_argument_hierarchies", .bool o.observeArguments) ]

end InferenceOptions

namespace DiagnosticOptions

def keys : List String := ["color", "show_trace"]

def ofToml? (t : Toml) : Option DiagnosticOptions := do
  let entries ← t.section? keys
  let base : DiagnosticOptions := default
  pure
    { color := ← Toml.setting entries "color" Toml.bool? base.color
      showTrace := ← Toml.setting entries "show_trace" Toml.bool? base.showTrace }

def ofJson? (j : Json) : Option DiagnosticOptions := do
  let r ← j.record? keys
  let base : DiagnosticOptions := default
  pure
    { color := ← r.defaulted "color" Json.bool? base.color
      showTrace := ← r.defaulted "show_trace" Json.bool? base.showTrace }

def toToml (o : DiagnosticOptions) : String :=
  "[diagnostics]\n"
    ++ "color = " ++ toString o.color ++ "\n"
    ++ "show_trace = " ++ toString o.showTrace ++ "\n"

def toJson (o : DiagnosticOptions) : Json :=
  .obj [("color", .bool o.color), ("show_trace", .bool o.showTrace)]

end DiagnosticOptions

namespace Config

/-- The settings in a document. -/
def ofEntries? (entries : Toml.Entries) : Option Config := do
  pure
    { inference := ← Toml.setting entries "inference" InferenceOptions.ofToml? default
      diagnostics := ← Toml.setting entries "diagnostics" DiagnosticOptions.ofToml? default }

/-- The settings that a text writes, if they are valid. -/
def ofToml (text : String) : Except ConfigError Config :=
  match (Toml.read text).bind ofEntries? with
  | none => .error .malformed
  | some config =>
    match config.problem? with
    | some message => .error (.invalid message)
    | none => .ok config

/-- Settings as a text that reads back as them. -/
def toToml (c : Config) : String :=
  c.inference.toToml ++ "\n" ++ c.diagnostics.toToml

/-- The settings that a JSON value holds; they are not checked. -/
def ofJson? (j : Json) : Option Config := do
  let r ← j.record? ["inference", "diagnostics"]
  pure
    { inference := ← r.defaulted "inference" InferenceOptions.ofJson? default
      diagnostics := ← r.defaulted "diagnostics" DiagnosticOptions.ofJson? default }

def toJson (c : Config) : Json :=
  .obj [("inference", c.inference.toJson), ("diagnostics", c.diagnostics.toJson)]

end Config

end Callsite
