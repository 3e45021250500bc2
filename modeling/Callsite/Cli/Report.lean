import Callsite.Config
import Callsite.Failure
import Callsite.Inference.Dispatch

/-!
# Reports

What a run prints of a session: the variables of the top level, or all calls with their
targets; and of a failure.
-/

namespace Callsite.Cli

/-- The variables of the top level with their types, and the number of calls that are never
reached if there are any. -/
def checkReport (s : Session) : String :=
  let vars := s.rootVars.entries.map fun (name, node) => name ++ " : " ++ s.typeName node ++ "\n"
  let dead := s.deadCalls
  String.join vars
    ++ (if dead = 0 then "" else toString dead ++ " call(s) unreachable after NoReturn\n")

/-- The line of one row of a dispatch table. -/
def rowReport (s : Session) (row : DispatchRow) : String :=
  "       [" ++ (row.receiver.map s.types.name).getD "" ++ "](" ++ s.types.names row.args ++ ") => "
    ++ (row.target.map s.describe).getD "-" ++ "\n"

/-- A call with its targets, and with its dispatch table if there is more than one. -/
def callReport (s : Session) (id : CallId) : String :=
  let site := s.call id
  let receiver := (site.receiver.map (s.typeName · ++ ".")).getD ""
  "CallId(" ++ toString id.index ++ ") " ++ receiver ++ site.name ++ " : " ++ s.typeName site.node
    ++ " at " ++ site.span.position ++ "\n"
    ++ (if site.isDead then "    (unreachable)\n"
        else
          String.join (site.resolved.map fun target => "    -> " ++ s.describe target ++ "\n")
            ++ (if 1 < site.resolved.length then
                  String.join ((s.dispatchTable id).map (rowReport s))
                else ""))

/-- All calls in the order in which they were met. -/
def callsReport (s : Session) : String :=
  String.join (s.callIds.map (callReport s))

/-- A failure as it is printed; the settings may hide where types came from. -/
def failureReport (config : Config) (failure : Failure) : String :=
  let shown := if config.diagnostics.showTrace then failure else { failure with trace := [] }
  shown.toDiagnostic.render

end Callsite.Cli
