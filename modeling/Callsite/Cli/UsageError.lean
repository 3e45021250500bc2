import Callsite.Cli.Flag
import Callsite.Cli.Likeness
import Callsite.Cli.Visible

/-!
# Usage errors

What can be wrong with the arguments of a run, and what the user is told about it: the
fault, tips, how the program is used, and where to find help.
-/

namespace Callsite.Cli

/-- Who is called: the program, or one of its commands. -/
structure Caller where
  program : String
  command : Option Command
  deriving DecidableEq, Repr

def Caller.words (c : Caller) : String :=
  match c.command with
  | some command => c.program ++ " " ++ command.word
  | none => c.program

/-- What has to stand behind the options. -/
def Caller.rest (c : Caller) : String :=
  if c.command.isSome then " <FILE>" else " <COMMAND>"

/-- How the program is used. -/
def Caller.usage (c : Caller) : String :=
  "Usage: " ++ c.words ++ " [OPTIONS]" ++ c.rest

/-- How the program is used with the options that were given. -/
def Caller.usageWith (c : Caller) (given : List Operand) : String :=
  if given.isEmpty then c.usage
  else
    let flags := given.eraseDups.filter (· != .file)
    "Usage: " ++ c.words ++ String.join (flags.map (" " ++ ·.shown)) ++ c.rest

/-- What can be wrong with arguments. -/
inductive UsageError where
  | missingValue (operand : Operand)
  | unknownColor (value : String)
  | repeated (flag : Flag)
  | excluded (flag other : Flag) (given : List Operand)
  | needlessValue (flag : Flag) (value : String) (given : List Operand)
  | unknownOption (word : String) (given : List Operand)
  | unknownLetter (letter : Char)
  | extraWord (word : String)
  | missingFile (given : List Operand)
  | unknownCommand (word : String)
  | missingCommand
  deriving DecidableEq, Repr

namespace UsageError

/-- Words in brackets behind a title; nothing if there are none. -/
def listed (title : String) (words : List String) : String :=
  if words.isEmpty then "" else "\n  [" ++ title ++ ": " ++ ", ".intercalate words ++ "]"

def commandWords : List String := ["check", "calls", "help"]

/-- The option that was perhaps meant. -/
def meant? (word : String) : Option Flag :=
  (closest? word (Flag.all.map (·.word))).bind Flag.ofWord?

/-- What is wrong. -/
def fault (c : Caller) : UsageError → String
  | .missingValue operand =>
    "a value is required for '" ++ operand.shown ++ "' but none was supplied"
      ++ listed "possible values" operand.choices
  | .unknownColor value =>
    "invalid value '" ++ visible value ++ "' for '" ++ (Operand.flag .color).shown ++ "'"
      ++ listed "possible values" (Operand.flag .color).choices
  | .repeated flag =>
    "the argument '" ++ (Operand.flag flag).shown ++ "' cannot be used multiple times"
  | .excluded flag other _ =>
    "the argument '" ++ (Operand.flag flag).shown ++ "' cannot be used with '"
      ++ (Operand.flag other).shown ++ "'"
  | .needlessValue flag value _ =>
    "unexpected value '" ++ visible value ++ "' for '" ++ (Operand.flag flag).shown
      ++ "' found; no more were expected"
  | .unknownOption word _ => "unexpected argument '" ++ visible ("--" ++ word) ++ "' found"
  | .unknownLetter letter =>
    "unexpected argument '" ++ visible ("-" ++ letter.toString) ++ "' found"
  | .extraWord word => "unexpected argument '" ++ visible word ++ "' found"
  | .missingFile _ =>
    "the following required arguments were not provided:\n  " ++ Operand.file.shown
  | .unknownCommand word => "unrecognized subcommand '" ++ visible word ++ "'"
  | .missingCommand =>
    "'" ++ c.program ++ "' requires a subcommand but one was not provided"
      ++ listed "subcommands" commandWords

/-- The tip to put two dashes before something that starts with a dash.  Only a command takes
words. -/
def asWord (c : Caller) (arg : String) : List String :=
  let shown := visible arg
  if c.command.isNone then []
  else ["to pass '" ++ shown ++ "' as a value, use '-- " ++ shown ++ "'"]

/-- The tip that names what was perhaps meant. -/
def similar (kind : String) : List String → List String
  | [] => []
  | [name] => ["a similar " ++ kind ++ " exists: '" ++ name ++ "'"]
  | names =>
    ["some similar " ++ kind ++ "s exist: " ++ ", ".intercalate (names.map ("'" ++ · ++ "'"))]

/-- What the user may do about an error. -/
def tips (c : Caller) : UsageError → List String
  | .unknownColor value =>
    similar "value" (closest? value (Operand.flag .color).choices).toList
  | .unknownOption word _ =>
    match meant? word with
    | some flag => similar "argument" ["--" ++ flag.word]
    | none => asWord c ("--" ++ word)
  | .unknownLetter letter => asWord c ("-" ++ letter.toString)
  | .unknownCommand word => similar "subcommand" (similarWords word commandWords)
  | _ => []

/-- How the program is used, as far as an error shows it. -/
def usage? (c : Caller) : UsageError → Option String
  | .missingValue _ | .unknownColor _ => none
  | .excluded _ other given => some (c.usageWith (given.filter (· != .flag other)))
  | .needlessValue flag _ given => some (c.usageWith (given ++ [.flag flag]))
  | .unknownOption word given =>
    some (c.usageWith (given ++ (meant? word).toList.map Operand.flag))
  | .missingFile given => some (c.usageWith (given ++ [.file]))
  | _ => some c.usage

def text (c : Caller) (e : UsageError) : String :=
  let tips := e.tips c
  "error: " ++ e.fault c
    ++ (if tips.isEmpty then "" else "\n" ++ String.join (tips.map ("\n  tip: " ++ ·)))
    ++ (match e.usage? c with
        | some usage => "\n\n" ++ usage
        | none => "")
    ++ "\n\nFor more information, try '--help'.\n"

end UsageError

end Callsite.Cli
