import Quadratics.Command.Options
import Quadratics.Report.Roots
import Quadratics.Task.Config
/-! The settings of a run: the command line over the task file over the defaults. -/
namespace Quadratics.Command

inductive LogFile where
  | stamped
  | named (name : String)
deriving DecidableEq

def LogFile.ofText (text : String) : LogFile := if text = "auto" then .stamped else .named text

def LogFile.path (stamp : String) : LogFile → String
  | .stamped => s!"log_{stamp}.txt"
  | .named name => name

structure Settings where
  level : Level
  precision : Nat
  mode : Mode
  logFile : Option LogFile
  equations : List (String × String)
deriving DecidableEq

def taskConfig : Option (Except String String) → Except TaskError Config
  | none => .ok {}
  | some (.error reason) => .error (.io reason)
  | some (.ok text) => Config.ofText text

namespace Options

def levelOver (o : Options) (c : Config) : Except TaskError Level :=
  match o.level with
  | some text => Level.parse text
  | none => .ok (c.level.getD .error)

def modeOver (o : Options) (c : Config) : Mode :=
  if o.verbose then .verbose else if o.quiet then .quiet else c.mode.getD .normal

def equationsOver (o : Options) (c : Config) : List (String × String) :=
  match o.equation with
  | some text => [("equation", text)]
  | none => c.equations

end Options

/-- A bad task file is an error whatever the command line says. -/
def Settings.resolve (o : Options) (task : Option (Except String String)) :
    Except TaskError Settings := do
  let c ← taskConfig task
  let level ← o.levelOver c
  return {
    level := level
    precision := (o.precision <|> c.precision).getD Report.defaultPrecision
    mode := o.modeOver c
    logFile := (o.logFile <|> c.logFile).map .ofText
    equations := o.equationsOver c }

end Quadratics.Command
