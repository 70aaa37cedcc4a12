import Quadratics.Command.Demonstration
import Quadratics.Command.Settings
/-! A run of the command line, from its arguments to what it prints and its exit code. -/
namespace Quadratics.Command

inductive Verdict where
  | solved | rejected
  | abandoned (breakdown : Breakdown)
deriving DecidableEq

def solveOne (s : Settings) (source : String) : List Output × Verdict :=
  let logged := Output.logged s.level (Record.evaluation source)
  match evaluate source with
  | .ok e =>
    match Report.lines s.mode s.precision source e with
    | .ok lines => (logged ++ lines.map .out, .solved)
    | .error lines => (logged ++ lines.map .out, .abandoned .places)
  | .error (.rejected e) => (logged ++ (Report.refusal source e).map .err, .rejected)
  | .error .overflow => (logged, .abandoned .negation)

def title (s : Settings) (name : String) : List Output :=
  if 1 < s.equations.length then [.out s!"[{name}]"] else []

structure Progress where
  outputs : List Output := []
  failures : Nat := 0

def solveNext (s : Settings) (p : Progress) (equation : String × String) :
    Except (List Output × Breakdown) Progress :=
  let (outputs, verdict) := solveOne s equation.2
  let written := p.outputs ++ title s equation.1 ++ outputs
  match verdict with
  | .solved => .ok { p with outputs := written }
  | .rejected => .ok { p with outputs := written, failures := p.failures + 1 }
  | .abandoned breakdown => .error (written, breakdown)

def summary (total failures : Nat) : List Record :=
  .info s!"{total - failures} equation(s) solved, {failures} rejected" ::
    if failures = 0 then [] else [.error s!"{failures} equation(s) could not be solved"]

def exitSolved : Nat := 0
def exitRejected : Nat := 1
def exitUsage : Nat := 2
def exitAbandoned : Nat := 101

def batch (s : Settings) : Outcome :=
  match s.equations.foldlM (solveNext s) {} with
  | .error (written, breakdown) =>
    { outputs := written, exit := exitAbandoned, breakdown := some breakdown }
  | .ok p =>
    { outputs := p.outputs ++ Output.logged s.level (summary s.equations.length p.failures)
      exit := if p.failures = 0 then exitSolved else exitRejected }

def failed (text : String) : Outcome := { outputs := [.err text], exit := exitUsage }

def work (o : Options) (s : Settings) : Outcome :=
  match o.demonstration with
  | some number => { outputs := Demonstration.outputs s.level number, exit := exitSolved }
  | none => if s.equations.isEmpty then failed "No equation or task file specified" else batch s

/-- What a run asks of its surroundings: the text of a file, a new file for the log, the time, and
what is said of a breakdown. A refusal comes in the words of the system, and so does the latter. -/
structure Surroundings (m : Type → Type) where
  read : String → m (Except String String)
  create : String → m (Except String Unit)
  stamp : m String
  breakdown : Breakdown → m String

/-- The system has the last word on a run that broke down. -/
def closing {m : Type → Type} [Monad m] (world : Surroundings m) (o : Outcome) : m Outcome := do
  match o.breakdown with
  | none => return o
  | some breakdown => return { o with outputs := o.outputs ++ [.err (← world.breakdown breakdown)] }

/-- The log file is created before anything is solved, and not at all when nothing is logged. -/
def workLogged {m : Type → Type} [Monad m] (world : Surroundings m) (o : Options) (s : Settings) :
    m Outcome := do
  match s.level, s.logFile with
  | .off, _ | _, none => closing world (work o s)
  | _, some file =>
    let path := file.path (← world.stamp)
    match ← world.create path with
    | .error reason => return failed s!"Error: {(TaskError.io reason).message}"
    | .ok () => return { (← closing world (work o s)) with logFile := some path }

def workOn {m : Type → Type} [Monad m] (world : Surroundings m) (o : Options) : m Outcome := do
  let task ← o.task.mapM world.read
  match Settings.resolve o task with
  | .error e => return failed s!"Error: {e.message}"
  | .ok s => workLogged world o s

def usage : String :=
  "Usage: computor [OPTIONS] [EQUATION]\n\n" ++
  "Solve polynomial equations of degree 2 or lower\n\n" ++
  "  -v, --verbose           also print the postfix sequence, the tree and a table of terms\n" ++
  "  -q, --quiet             print the solution only\n" ++
  "      --task FILE         settings and equations\n" ++
  "      --loglevel LEVEL    debug, info, warn, error or off\n" ++
  "      --log-file FILE     write the log to FILE as well, auto picks a name\n" ++
  "      --precision N       decimals printed for the roots\n" ++
  "  -h, --help              print this text\n" ++
  "  -V, --version           print the version"

def run {m : Type → Type} [Monad m] (world : Surroundings m) (args : List String) : m Outcome :=
  match Request.ofArguments args with
  | .error e => return failed s!"error: {e.message}\n\n{usage}"
  | .ok .help => return { outputs := [.out usage], exit := exitSolved }
  | .ok .version => return { outputs := [.out "computor 0.1.0"], exit := exitSolved }
  | .ok (.work o) => workOn world o

end Quadratics.Command
