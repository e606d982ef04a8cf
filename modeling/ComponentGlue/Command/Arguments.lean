import ComponentGlue.Disk.Tree
import ComponentGlue.Text

set_option autoImplicit false
set_option relaxedAutoImplicit false

namespace ComponentGlue

/-- What the command line asks for. -/
inductive Command where
  | check (config : Path)
  | bake (config : Path) (output : Option Path) (dryRun : Bool)
  | explain
  | version
  | help
  deriving DecidableEq

/-- Why a command line cannot be used. -/
inductive UsageError where
  | missingSubcommand
  | unknownSubcommand (name : String)
  | unexpectedArgument (argument : String)
  | repeated (option : String)
  | missingValue (option : String)
  | unexpectedValue (option : String)
  deriving DecidableEq

namespace UsageError

def message : UsageError → String
  | .missingSubcommand => "a subcommand is required but one was not provided"
  | .unknownSubcommand name => s!"unrecognized subcommand '{name}'"
  | .unexpectedArgument argument => s!"unexpected argument '{argument}' found"
  | .repeated option => s!"the argument '{option}' cannot be used multiple times"
  | .missingValue option => s!"a value is required for '{option}' but none was supplied"
  | .unexpectedValue option => s!"unexpected value for '{option}' found; no more were expected"

end UsageError

namespace Command

inductive OptionName where
  | verbose
  | config
  | output
  | dryRun
  | version
  | help
  deriving DecidableEq

namespace OptionName

def long : OptionName → String
  | .verbose => "verbose"
  | .config => "config"
  | .output => "output"
  | .dryRun => "dry-run"
  | .version => "version"
  | .help => "help"

def short? : OptionName → Option Char
  | .verbose => some 'v'
  | .config => some 'c'
  | .output => some 'o'
  | .dryRun => none
  | .version => some 'V'
  | .help => some 'h'

def takesValue : OptionName → Bool
  | .config | .output => true
  | .verbose | .dryRun | .version | .help => false

def shows? : OptionName → Option Command
  | .version => some .version
  | .help => some .help
  | .verbose | .config | .output | .dryRun => none

end OptionName

def topOptions : List OptionName := [.verbose, .version, .help]

inductive Subcommand where
  | check
  | bake
  | explain
  | help
  deriving DecidableEq

namespace Subcommand

def all : List Subcommand := [.check, .bake, .explain, .help]

def name : Subcommand → String
  | .check => "check"
  | .bake => "bake"
  | .explain => "explain"
  | .help => "help"

def options : Subcommand → List OptionName
  | .check => [.verbose, .config, .help]
  | .bake => [.verbose, .config, .output, .dryRun, .help]
  | .explain => [.verbose, .help]
  | .help => []

end Subcommand

abbrev Given := List (OptionName × String)

/-- Why reading options has stopped: an error, or an option that is answered at once. -/
inductive Stop where
  | error (e : UsageError)
  | show (c : Command)

/-- What has been read of one argument: the options given by now, and the option that takes the next
argument for its value. -/
structure Step where
  given : Given
  pending : Option OptionName

def addFlag (given : Given) (o : OptionName) : Except Stop Given :=
  match o.shows? with
  | some c => .error (.show c)
  | none =>
    if given.any fun g => g.1 = o then .error (.error (.repeated ("--" ++ o.long)))
    else .ok (given ++ [(o, "")])

def addValue (given : Given) (o : OptionName) (value : String) : Except Stop Given :=
  if value.isEmpty then .error (.error (.missingValue ("--" ++ o.long)))
  else if given.any fun g => g.1 = o then .error (.error (.repeated ("--" ++ o.long)))
  else .ok (given ++ [(o, value)])

/-- Read joined short options; the first one that takes a value takes the rest for it, an equals
sign in front left out. -/
def readShort (known : List OptionName) (argument : String) (given : Given) :
    List Char → Except Stop Step
  | [] => .ok ⟨given, none⟩
  | c :: rest =>
    match known.find? fun o => o.short? = some c with
    | none => .error (.error (.unexpectedArgument argument))
    | some o =>
      if o.takesValue then
        match rest with
        | [] => .ok ⟨given, some o⟩
        | '=' :: value => (addValue given o (String.ofList value)).map fun g => ⟨g, none⟩
        | value => (addValue given o (String.ofList value)).map fun g => ⟨g, none⟩
      else do readShort known argument (← addFlag given o) rest

/-- Read a long option, with a value after an equals sign if there is one. -/
def readLong (known : List OptionName) (argument : String) (given : Given) (text : List Char) :
    Except Stop Step :=
  let (name, value) : List Char × Option (List Char) :=
    match Text.splitAtChar? '=' text with
    | some (name, value) => (name, some value)
    | none => (text, none)
  match known.find? fun o => o.long = String.ofList name with
  | none => .error (.error (.unexpectedArgument argument))
  | some o =>
    match o.takesValue, value with
    | true, some value => (addValue given o (String.ofList value)).map fun g => ⟨g, none⟩
    | true, none => .ok ⟨given, some o⟩
    | false, some _ => .error (.error (.unexpectedValue ("--" ++ o.long)))
    | false, none => (addFlag given o).map fun g => ⟨g, none⟩

/-- Read the options in front of the first argument that is none. The rest starts with that argument;
after a double dash nothing is an option. -/
def readOptions (known : List OptionName) (pending : Option OptionName) (given : Given) :
    List String → Except Stop (Given × Bool × List String)
  | [] =>
    match pending with
    | some o => .error (.error (.missingValue ("--" ++ o.long)))
    | none => .ok (given, false, [])
  | argument :: rest =>
    match argument.toList with
    | ['-', '-'] =>
      match pending with
      | some o => .error (.error (.missingValue ("--" ++ o.long)))
      | none => .ok (given, true, rest)
    | '-' :: '-' :: text =>
      match pending with
      | some o => .error (.error (.missingValue ("--" ++ o.long)))
      | none => do
        let step ← readLong known argument given text
        readOptions known step.pending step.given rest
    | '-' :: c :: text =>
      match pending with
      | some o => .error (.error (.missingValue ("--" ++ o.long)))
      | none => do
        let step ← readShort known argument given (c :: text)
        readOptions known step.pending step.given rest
    | _ =>
      match pending with
      | some o => do readOptions known none (← addValue given o argument) rest
      | none => .ok (given, false, argument :: rest)

def valueOf? (given : Given) (o : OptionName) : Option Path :=
  (given.find? fun g => g.1 = o).map fun g => ⟨g.2⟩

def defaultConfig : Path := ⟨"tagsmith.toml"⟩

/-- The command of a subcommand with its options. -/
def ofOptions (given : Given) : Subcommand → Command
  | .check => .check ((valueOf? given .config).getD defaultConfig)
  | .bake =>
    .bake ((valueOf? given .config).getD defaultConfig) (valueOf? given .output)
      (given.any fun g => g.1 = .dryRun)
  | .explain => .explain
  | .help => .help

/-- Read a command line, up to the option that is answered at once or the first error. -/
def read (arguments : List String) : Except Stop Command := do
  let (_, onlyPlain, rest) ← readOptions topOptions none [] arguments
  match rest with
  | [] => .error (.error .missingSubcommand)
  | name :: rest =>
    if onlyPlain then .error (.error (.unexpectedArgument name))
    else
      match Subcommand.all.find? fun s => s.name = name with
      | none => .error (.error (.unknownSubcommand name))
      | some s =>
        let (given, _, rest) ← readOptions s.options none [] rest
        match rest with
        | [] => return ofOptions given s
        | argument :: _ => .error (.error (.unexpectedArgument argument))

def ofArguments (arguments : List String) : Except UsageError Command :=
  match read arguments with
  | .ok c => .ok c
  | .error (.show c) => .ok c
  | .error (.error e) => .error e

end Command

end ComponentGlue
