import Quadratics.Text.Natural
/-! The arguments of the command line. -/
namespace Quadratics.Command

structure Options where
  equation : Option String := none
  verbose : Bool := false
  quiet : Bool := false
  task : Option String := none
  level : Option String := none
  logFile : Option String := none
  precision : Option Nat := none
  demonstration : Option Nat := none
deriving DecidableEq

inductive UsageError where
  | unknownOption (argument : String)
  | unexpectedValue (option : String)
  | missingValue (option : String)
  | invalidValue (option value : String)
  | repeated (option : String)
  | secondEquation (argument : String)
  | conflict
deriving DecidableEq

def UsageError.message : UsageError → String
  | .unknownOption argument => s!"unknown option '{argument}'"
  | .unexpectedValue option => s!"option '--{option}' takes no value"
  | .missingValue option => s!"option '--{option}' needs a value"
  | .invalidValue option value => s!"invalid value '{value}' for option '--{option}'"
  | .repeated option => s!"option '--{option}' is given twice"
  | .secondEquation argument => s!"unexpected argument '{argument}'"
  | .conflict => "options '--verbose' and '--quiet' exclude each other"

inductive Request where
  | help
  | version
  | work (options : Options)
deriving DecidableEq

namespace Options

def setVerbose (o : Options) : Except UsageError Options :=
  if o.verbose then .error (.repeated "verbose") else .ok { o with verbose := true }

def setQuiet (o : Options) : Except UsageError Options :=
  if o.quiet then .error (.repeated "quiet") else .ok { o with quiet := true }

def setEquation (o : Options) (text : String) : Except UsageError Options :=
  if o.equation.isSome then .error (.secondEquation text) else .ok { o with equation := some text }

def natural (option value : String) : Except UsageError Nat :=
  match Text.natural? value with
  | some n => .ok n
  | none => .error (.invalidValue option value)

inductive Key where
  | task | level | logFile | precision | demonstration
deriving DecidableEq

def Key.name : Key → String
  | .task => "task"
  | .level => "loglevel"
  | .logFile => "log-file"
  | .precision => "precision"
  | .demonstration => "example"

def Key.ofName? (name : String) : Option Key :=
  [.task, .level, .logFile, .precision, .demonstration].find? (·.name = name)

def isSet (o : Options) : Key → Bool
  | .task => o.task.isSome
  | .level => o.level.isSome
  | .logFile => o.logFile.isSome
  | .precision => o.precision.isSome
  | .demonstration => o.demonstration.isSome

/-- A file to read has a name; levels and log files are looked at later. -/
def assign (o : Options) (key : Key) (value : String) : Except UsageError Options :=
  if o.isSet key then .error (.repeated key.name)
  else
    match key with
    | .task =>
      if value = "" then .error (.invalidValue key.name value)
      else .ok { o with task := some value }
    | .level => .ok { o with level := some value }
    | .logFile => .ok { o with logFile := some value }
    | .precision => (natural key.name value).map fun n => { o with precision := some n }
    | .demonstration => (natural key.name value).map fun n => { o with demonstration := some n }

end Options

inductive Argument where
  | separator
  | long (name : String) (value : Option String)
  | short (letters : List Char)
  | plain

def argument (text : String) : Argument :=
  match text.toList with
  | ['-', '-'] => .separator
  | '-' :: '-' :: cs =>
    let name := String.ofList (cs.takeWhile (· ≠ '='))
    match cs.dropWhile (· ≠ '=') with
    | [] => .long name none
    | _ :: value => .long name (some (String.ofList value))
  | '-' :: c :: cs => .short (c :: cs)
  | _ => .plain

def Argument.isPlain : Argument → Bool
  | .plain => true
  | _ => false

/-- Letters behind one minus, each an option of its own; nothing if one of them asks for a text. -/
def readLetters (o : Options) : List Char → Except UsageError (Options ⊕ Request)
  | [] => .ok (.inl o)
  | 'v' :: cs => o.setVerbose.bind fun o => readLetters o cs
  | 'q' :: cs => o.setQuiet.bind fun o => readLetters o cs
  | 'h' :: _ => .ok (.inr .help)
  | 'V' :: _ => .ok (.inr .version)
  | c :: _ => .error (.unknownOption (String.ofList ['-', c]))

def readPlain (o : Options) : List String → Except UsageError Request
  | [] => if o.verbose && o.quiet then .error .conflict else .ok (.work o)
  | text :: rest => (o.setEquation text).bind fun o => readPlain o rest

/-- The arguments from left to right. A value stands behind `=` or is the next argument, unless that
looks like an option. -/
def read (o : Options) : List String → Except UsageError Request
  | [] => readPlain o []
  | text :: rest =>
    match argument text with
    | .separator => readPlain o rest
    | .plain => (o.setEquation text).bind fun o => read o rest
    | .short letters =>
      match readLetters o letters with
      | .error e => .error e
      | .ok (.inr request) => .ok request
      | .ok (.inl o) => read o rest
    | .long "verbose" none => o.setVerbose.bind fun o => read o rest
    | .long "quiet" none => o.setQuiet.bind fun o => read o rest
    | .long "help" none => .ok .help
    | .long "version" none => .ok .version
    | .long name value =>
      match Options.Key.ofName? name, value, rest with
      | some key, some value, rest => (o.assign key value).bind fun o => read o rest
      | some key, none, value :: rest =>
        if (argument value).isPlain then (o.assign key value).bind fun o => read o rest
        else .error (.missingValue name)
      | some _, none, [] => .error (.missingValue name)
      | none, value, _ =>
        if value.isSome && ["verbose", "quiet", "help", "version"].contains name then
          .error (.unexpectedValue name)
        else .error (.unknownOption text)

def Request.ofArguments (args : List String) : Except UsageError Request := read {} args

end Quadratics.Command
