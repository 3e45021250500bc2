/-!
# Commands and options

What may be written on the command line, and how messages show it.
-/

namespace Callsite.Cli

/-- What a run is to do. -/
inductive Command where
  | check
  | calls
  deriving DecidableEq, Repr

namespace Command

def word : Command → String
  | .check => "check"
  | .calls => "calls"

def ofWord? (word : String) : Option Command :=
  [Command.check, Command.calls].find? (·.word == word)

end Command

/-- When diagnostics are coloured. -/
inductive ColorChoice where
  | auto
  | always
  | never
  deriving DecidableEq, Repr

namespace ColorChoice

def all : List ColorChoice := [.auto, .always, .never]

def word : ColorChoice → String
  | .auto => "auto"
  | .always => "always"
  | .never => "never"

def ofWord? (word : String) : Option ColorChoice :=
  all.find? (·.word == word)

end ColorChoice

/-- The options. -/
inductive Flag where
  | config
  | verbose
  | quiet
  | color
  | help
  | version
  deriving DecidableEq, Repr

namespace Flag

def all : List Flag := [.config, .verbose, .quiet, .color, .help, .version]

def word : Flag → String
  | .config => "config"
  | .verbose => "verbose"
  | .quiet => "quiet"
  | .color => "color"
  | .help => "help"
  | .version => "version"

/-- The letter that an option can be written with. -/
def letter? : Flag → Option Char
  | .config => some 'c'
  | .verbose => some 'v'
  | .quiet => some 'q'
  | .color => none
  | .help => some 'h'
  | .version => some 'V'

/-- Whether an option has a value. -/
def takesValue : Flag → Bool
  | .config | .color => true
  | _ => false

def ofWord? (word : String) : Option Flag :=
  all.find? (·.word == word)

def ofLetter? (letter : Char) : Option Flag :=
  all.find? (·.letter? == some letter)

end Flag

/-- What takes a value: an option, or the place of the file. -/
inductive Operand where
  | flag (flag : Flag)
  | file
  deriving DecidableEq, Repr

namespace Operand

/-- How messages show an operand; dots say that an option may be repeated. -/
def shown : Operand → String
  | .flag .config => "--config <FILE>"
  | .flag .color => "--color <COLOR>"
  | .flag .verbose => "--verbose..."
  | .flag other => "--" ++ other.word
  | .file => "<FILE>"

/-- The words that an operand can be; none if it can be any. -/
def choices : Operand → List String
  | .flag .color => ColorChoice.all.map (·.word)
  | _ => []

end Operand

end Callsite.Cli
