import Quadratics.Log.Record
/-! What a run writes, line by line. -/
namespace Quadratics.Command

/-- A logged line goes to the terminal and to the log file, if there is one. -/
inductive Output where
  | out (text : String)
  | err (text : String)
  | log (record : Record)
deriving DecidableEq

namespace Output

def onStdout? : Output → Option String
  | .out text => some text
  | .err _ => none
  | .log r => if r.level = .error then none else some r.line

def onStderr? : Output → Option String
  | .out _ => none
  | .err text => some text
  | .log r => if r.level = .error then some r.line else none

def inLog? : Output → Option String
  | .out _ | .err _ => none
  | .log r => some r.line

def logged (level : Level) (rs : List Record) : List Output :=
  (rs.filter (·.isShown level)).map .log

end Output

def joined (lines : List String) : String := String.join (lines.map (· ++ "\n"))

/-- What ends a run on the spot: a power without a negative, or more places than can be printed. -/
inductive Breakdown where
  | negation | places
deriving DecidableEq

def Breakdown.message : Breakdown → String
  | .negation => "attempt to negate with overflow"
  | .places => "Formatting argument out of range"

/-- All a run leaves behind; `logFile` is the file that was created. -/
structure Outcome where
  outputs : List Output
  exit : Nat
  logFile : Option String := none
  breakdown : Option Breakdown := none

namespace Outcome

def stdout (o : Outcome) : String := joined (o.outputs.filterMap Output.onStdout?)

def stderr (o : Outcome) : String := joined (o.outputs.filterMap Output.onStderr?)

def logText (o : Outcome) : String := joined (o.outputs.filterMap Output.inLog?)

end Outcome
end Quadratics.Command
