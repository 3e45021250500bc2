import Callsite.Cli.UsageError

/-!
# Reading arguments

A run is called with options, a command, further options and a file.  The options may
stand before and after the command; what is said after it counts.  An option that
takes a value gets it from the same argument or from the next one, unless that looks
like an option; the value is judged when the next option or word comes.
-/

namespace Callsite.Cli

/-- A command with all that the arguments say. -/
structure Invocation where
  command : Command
  file : String
  config : Option String
  verbosity : Nat
  quiet : Bool
  color : ColorChoice
  deriving DecidableEq, Repr

/-- Why reading arguments ends before their end. -/
inductive Stop where
  | wrong (error : UsageError)
  | version
  | help
  deriving DecidableEq, Repr

/-- What has been read on one side of the command. -/
structure Level where
  given : List Operand
  config : Option String
  verbosity : Nat
  quiet : Bool
  color : Option ColorChoice
  file : Option String
  /-- The operand whose value is not judged, or not known, yet. -/
  pending : Option (Operand × Option String)
  deriving DecidableEq, Repr

namespace Level

def empty : Level := ⟨[], none, 0, false, none, none, none⟩

def refuse {α : Type} (e : UsageError) : Except Stop α :=
  .error (.wrong e)

/-- Judge the value of an operand.  Each may be given once, and not with an empty value. -/
def accept (l : Level) (operand : Operand) (value : String) : Except Stop Level :=
  match operand with
  | .flag .config =>
    if l.config.isSome then refuse (.repeated .config)
    else if value = "" then refuse (.missingValue operand)
    else .ok { l with config := some value, given := l.given ++ [operand] }
  | .flag .color =>
    if l.color.isSome then refuse (.repeated .color)
    else
      match ColorChoice.ofWord? value with
      | some choice => .ok { l with color := some choice, given := l.given ++ [operand] }
      | none =>
        refuse (if value = "" then .missingValue operand else .unknownColor value)
  | .flag flag => refuse (.needlessValue flag value l.given)
  | .file =>
    if value = "" then refuse (.missingValue operand)
    else .ok { l with file := some value, given := l.given ++ [operand] }

/-- Judge the operand that is pending, if there is one. -/
def settle (l : Level) : Except Stop Level :=
  match l.pending with
  | none => .ok l
  | some (operand, none) => refuse (.missingValue operand)
  | some (operand, some value) => { l with pending := none }.accept operand value

/-- What has been given, together with what is pending, right or wrong.  An option that was
given before and is repeated no longer counts. -/
def mentioned (l : Level) : List Operand :=
  match l.pending with
  | some (operand, some _) =>
    if l.given.contains operand then l.given.erase operand else l.given ++ [operand]
  | _ => l.given

/-- The operand that the next argument is the value of. -/
def awaiting? (l : Level) : Option Operand :=
  match l.pending with
  | some (operand, none) => some operand
  | _ => none

/-- Whether a file has been given, judged or not. -/
def hasFile (l : Level) : Bool :=
  l.file.isSome || l.pending.any (·.1 == .file)

/-- Read an option without a value in the same argument. -/
def raise (l : Level) (flag : Flag) : Except Stop Level := do
  let l ← l.settle
  match flag with
  | .verbose =>
    pure
      { l with
        verbosity := l.verbosity + 1
        given := l.given.filter (· != .flag flag) ++ [.flag flag] }
  | .quiet =>
    if l.quiet then refuse (.repeated flag)
    else pure { l with quiet := true, given := l.given ++ [.flag flag] }
  | .help => throw .help
  | .version => throw .version
  | .config | .color => pure { l with pending := some (.flag flag, none) }

/-- Read an option with its value. -/
def raiseWith (l : Level) (flag : Flag) (value : String) : Except Stop Level := do
  (← l.settle).accept (.flag flag) value

/-- Read an option in words; a value may follow a sign of equality. -/
def long (l : Level) (cs : List Char) : Except Stop Level :=
  let word := String.ofList (cs.takeWhile (· != '='))
  match Flag.ofWord? word, cs.dropWhile (· != '=') with
  | none, _ => refuse (.unknownOption word l.mentioned)
  | some flag, [] => l.raise flag
  | some flag, _ :: value =>
    if flag.takesValue then l.raiseWith flag (String.ofList value)
    else refuse (.needlessValue flag (String.ofList value) l.given)

/-- Read options in letters.  One that takes a value takes the rest of the letters, without a
sign of equality before them. -/
def letters (l : Level) : List Char → Except Stop Level
  | [] => .ok l
  | c :: rest => do
    match Flag.ofLetter? c with
    | none => refuse (.unknownLetter c)
    | some flag =>
      if flag.takesValue then
        match rest with
        | [] => l.raise flag
        | '=' :: value => l.raiseWith flag (String.ofList value)
        | value => l.raiseWith flag (String.ofList value)
      else letters (← l.raise flag) rest

/-- Read an argument that looks like an option. -/
def option? (l : Level) (arg : String) : Option (Except Stop Level) :=
  match arg.toList with
  | '-' :: '-' :: cs => some (l.long cs)
  | '-' :: c :: cs => some (l.letters (c :: cs))
  | _ => none

/-- Read an argument that is the file. -/
def word (l : Level) (arg : String) : Except Stop Level := do
  if l.hasFile then refuse (.extraWord arg)
  else pure { ← l.settle with pending := some (.file, some arg) }

/-- Read the arguments behind the command; behind two dashes there are only words. -/
def behind (l : Level) : List String → Except Stop Level
  | [] => l.settle
  | "--" :: rest => do (← rest.foldlM word l).settle
  | arg :: rest => do
    match l.option? arg with
    | some l => behind (← l) rest
    | none =>
      match l.awaiting? with
      | some operand => behind { l with pending := some (operand, some arg) } rest
      | none => behind (← l.word arg) rest

/-- The arguments end without a command. -/
def noCommand {α : Type} (l : Level) : Except Stop α := do
  let _ ← l.settle
  refuse .missingCommand

/-- What `help` says about the word behind it. -/
def helpFor {α : Type} : List String → Except Stop α
  | [] => .error .help
  | word :: _ =>
    if UsageError.commandWords.contains word then .error .help else refuse (.unknownCommand word)

/-- Read the arguments up to the command; those behind it are left. -/
def before (l : Level) : List String → Except Stop (Level × Command × List String)
  | [] => l.noCommand
  | ["--"] => l.noCommand
  | "--" :: word :: _ => refuse (.unknownCommand word)
  | arg :: rest => do
    match l.option? arg with
    | some l => before (← l) rest
    | none =>
      match l.awaiting?, Command.ofWord? arg with
      | some operand, _ => before { l with pending := some (operand, some arg) } rest
      | none, some command => pure (l, command, rest)
      | none, none => if arg = "help" then helpFor rest else refuse (.unknownCommand arg)

/-- Quiet and verbose exclude each other on one side of the command. -/
def checked (l : Level) : Except Stop Level :=
  if l.quiet && l.verbosity != 0 then
    if l.given.idxOf (.flag .quiet) < l.given.idxOf (.flag .verbose) then
      refuse (.excluded .quiet .verbose l.given)
    else refuse (.excluded .verbose .quiet l.given)
  else .ok l

end Level

/-- What a user wants. -/
inductive Request where
  | run (inv : Invocation)
  | version (command : Option Command)
  | help (command : Option Command)
  | wrong (command : Option Command) (error : UsageError)
  deriving DecidableEq, Repr

/-- Reading ended early: what was wanted, and of which command. -/
def Stop.toRequest (command : Option Command) : Stop → Request
  | .wrong error => .wrong command error
  | .version => .version command
  | .help => .help command

/-- What arguments behind a command say, with the file, which has to be there. -/
def inside (args : List String) : Except Stop (Level × String) := do
  let l ← (← Level.empty.behind args).checked
  match l.file with
  | some file => pure (l, file)
  | none => Level.refuse (.missingFile l.given)

/-- What arguments ask for.  The arguments behind the command are judged first. -/
def request (args : List String) : Request :=
  match Level.empty.before args with
  | .error stop => stop.toRequest none
  | .ok (outer, command, rest) =>
    match inside rest, outer.settle >>= Level.checked with
    | .error stop, _ => stop.toRequest (some command)
    | _, .error stop => stop.toRequest none
    | .ok (inner, file), .ok outer =>
      .run
        { command, file
          config := inner.config.or outer.config
          verbosity := if inner.verbosity = 0 then outer.verbosity else inner.verbosity
          quiet := inner.quiet || outer.quiet
          color := (inner.color.or outer.color).getD .auto }

end Callsite.Cli
