import Quadratics.Command.Run
import Std.Time.Zoned
/-! The program: files and clock for a run, its lines on the two streams and in the log file. -/
namespace Quadratics.Main

open Command

def twoDigits (n : Int) : String := (if n < 10 then "0" else "") ++ toString n

def clock : IO String := do
  let seconds := (← Std.Time.Timestamp.now).toSecondsSinceUnixEpoch.val
  let parts := [seconds / 3600 % 24, seconds / 60 % 60, seconds % 60]
  return ":".intercalate (parts.map twoDigits)

def stamp : IO String := do
  let now ← Std.Time.PlainDateTime.now
  let date := [toString now.year.toInt, twoDigits now.month.val, twoDigits now.day.val]
  let time := [twoDigits now.hour.val, twoDigits now.minute.val, twoDigits now.second.val]
  return "-".intercalate date ++ "_" ++ "-".intercalate time

def reason (e : IO.Error) : String :=
  match e with
  | .noFileOrDirectory .. => "No such file or directory (os error 2)"
  | .permissionDenied .. => "Permission denied (os error 13)"
  | .inappropriateType .. => "Is a directory (os error 21)"
  | other => toString other

def attempt {α : Type} (action : IO α) : IO (Except String α) := do
  try
    return .ok (← action)
  catch e =>
    return .error (reason e)

def readText (path : String) : IO (Except String String) := do
  match ← attempt (IO.FS.readBinFile path) with
  | .error e => return .error e
  | .ok bytes =>
    match String.fromUTF8? bytes with
    | some text => return .ok text
    | none => return .error "stream did not contain valid UTF-8"

def surroundings : Surroundings IO where
  read := readText
  create path := attempt (IO.FS.writeFile path "")
  stamp := stamp
  breakdown b := return s!"\nthread 'main' panicked:\n{b.message}"

def write (log : Option IO.FS.Handle) (output : Output) : IO Unit := do
  match output with
  | .out text => IO.println text
  | .err text => IO.eprintln text
  | .log record =>
    let line := s!"{← clock} {record.line}"
    if record.level = .error then IO.eprintln line else IO.println line
    match log with
    | some handle => handle.putStrLn line
    | none => return ()

end Quadratics.Main

def main (args : List String) : IO UInt32 := do
  let outcome ← Quadratics.Command.run Quadratics.Main.surroundings args
  let log ← outcome.logFile.mapM fun path => IO.FS.Handle.mk path .write
  outcome.outputs.forM (Quadratics.Main.write log)
  return outcome.exit.toUInt32
