import Callsite.Span

/-!
# Diagnostics

A diagnostic is a message with a place in the source, further places, notes and
suggestions.  Without the source text it is rendered one item a line.
-/

namespace Callsite

inductive Severity where
  | error
  | warning
  | note
  deriving DecidableEq, Repr, Inhabited

def Severity.label : Severity → String
  | .error => "error"
  | .warning => "warning"
  | .note => "note"

/-- A further place with what is to be said about it. -/
structure Remark where
  span : Span
  message : String
  deriving DecidableEq, Repr, Inhabited

/-- A message about a program. -/
structure Diagnostic where
  severity : Severity
  code : Option String
  message : String
  span : Span
  remarks : List Remark
  notes : List String
  suggestions : List String
  deriving DecidableEq, Repr, Inhabited

namespace Remark

def line (r : Remark) : String :=
  if r.span.isAbsent then "\n  = note: " ++ r.message
  else "\n  = note: " ++ r.message ++ " (at " ++ r.span.position ++ ")"

end Remark

namespace Diagnostic

/-- The first line of a diagnostic. -/
def headline (d : Diagnostic) : String :=
  d.severity.label
    ++ (match d.code with
        | some code => "[" ++ code ++ "]"
        | none => "")
    ++ ": " ++ d.message

/-- The whole diagnostic as plain text, without a final line break. -/
def render (d : Diagnostic) : String :=
  d.headline
    ++ (if d.span.isAbsent then "" else "\n  --> " ++ d.span.position)
    ++ String.join (d.remarks.map Remark.line)
    ++ String.join (d.notes.map ("\n  = note: " ++ ·))
    ++ String.join (d.suggestions.map ("\n  = help: " ++ ·))

end Diagnostic

end Callsite
