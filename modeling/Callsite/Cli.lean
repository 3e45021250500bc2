import Callsite.Cli.Arguments
import Callsite.Cli.Report
import Callsite.ConfigFile
import Callsite.Inference.Check
import Callsite.Program.Decoding

/-!
# The command line

Two commands read a program from a file: `check` infers types and prints those of
the top-level variables, and `calls` prints every call with its targets.  What
a run prints and its exit code are computed here from the contents of the files.
-/

namespace Callsite.Cli

/-- What a run does to the outside. -/
structure Outcome where
  exitCode : UInt8
  out : String
  err : String
  deriving Repr

/-- The files that a run can read, by their paths: the contents, or why there are none. -/
abbrev Files := String → Except String String

def version : String := "0.1.0"

/-- A run that prints a message and fails. -/
def Outcome.failed (message : String) : Outcome := ⟨1, "", message⟩

namespace Invocation

def paths (inv : Invocation) : List String :=
  inv.config.toList ++ [inv.file]

/-- The settings of a run, or the message why they cannot be read. -/
def loadConfig (inv : Invocation) (files : Files) : Except String Config :=
  match inv.config with
  | none => .ok default
  | some path =>
    match files path with
    | .error reason =>
      .error ("error: failed to read config file " ++ path ++ ": " ++ reason ++ "\n")
    | .ok text =>
      match Config.ofToml text with
      | .ok config => .ok config
      | .error .malformed => .error "error: failed to parse config\n"
      | .error (.invalid message) => .error ("error: " ++ message ++ "\n")

/-- The program of a run, or the message why it cannot be read. -/
def loadProgram (inv : Invocation) (files : Files) : Except String Program :=
  match files inv.file with
  | .error reason => .error ("Error reading file '" ++ inv.file ++ "': " ++ reason ++ "\n")
  | .ok text =>
    match Program.ofText? text with
    | some program => .ok program
    | none => .error ("Error parsing program '" ++ inv.file ++ "'\n")

/-- What a command prints of a session. -/
def report (inv : Invocation) (s : Session) : String :=
  match inv.command with
  | .check => if inv.quiet then "" else checkReport s
  | .calls => callsReport s

/-- Read the files, check the program, and report. -/
def run (inv : Invocation) (files : Files) : Outcome :=
  match inv.loadConfig files with
  | .error message => .failed message
  | .ok config =>
    match inv.loadProgram files with
    | .error message => .failed message
    | .ok program =>
      match (Session.start config.inference).check program with
      | (.ok _, s) => ⟨0, inv.report s, ""⟩
      | (.error (.failed failure), _) => .failed (failureReport config failure)
      | (.error .outOfFuel, _) => .failed "inference did not end\n"

end Invocation

/-- The version of a program or of one of its commands, whose names are joined. -/
def Caller.version (c : Caller) : String :=
  let name :=
    match c.command with
    | some command => c.program ++ "-" ++ command.word
    | none => c.program
  name ++ " " ++ Cli.version ++ "\n"

namespace Request

def paths : Request → List String
  | .run inv => inv.paths
  | _ => []

/-- What a run does about a request; a wrong use has an exit code of its own. -/
def answer (program : String) (files : Files) : Request → Outcome
  | .run inv => inv.run files
  | .version command => ⟨0, Caller.version ⟨program, command⟩, ""⟩
  | .help command => ⟨0, Caller.usage ⟨program, command⟩ ++ "\n", ""⟩
  | .wrong command error => ⟨2, "", error.text ⟨program, command⟩⟩

end Request

end Callsite.Cli
