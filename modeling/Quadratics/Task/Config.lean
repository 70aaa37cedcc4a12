import Quadratics.Log.Level
import Quadratics.Task.Document
import Quadratics.Text.Natural
/-! Settings and equations of a task file. -/
namespace Quadratics

inductive Mode where
  | normal | verbose | quiet
deriving DecidableEq

def Mode.name : Mode → String
  | .normal => "normal"
  | .verbose => "verbose"
  | .quiet => "quiet"

def Mode.ofName? (name : String) : Option Mode :=
  [.normal, .verbose, .quiet].find? (·.name = name)

def Level.parse (text : String) : Except TaskError Level :=
  (Level.ofText text).mapError (.invalidValue "loglevel")

/-- Nothing stands for what the file does not set; equations come with their names in file order. -/
structure Config where
  level : Option Level := none
  precision : Option Nat := none
  mode : Option Mode := none
  logFile : Option String := none
  equations : List (String × String) := []
deriving DecidableEq

namespace Config

/-- One pair of a solver section; a later pair of the same key wins. -/
def set (c : Config) (pair : String × String) : Except TaskError Config :=
  let (key, value) := pair
  let invalid : Except TaskError Config := .error (.invalidValue key value)
  if key = "loglevel" then (Level.parse value).map fun level => { c with level := some level }
  else if key = "precision" then
    match Text.natural? value with
    | some n => .ok { c with precision := some n }
    | none => invalid
  else if key = "mode" then
    match Mode.ofName? value with
    | some mode => .ok { c with mode := some mode }
    | none => invalid
  else if key = "log_file" ∧ value ≠ "" then .ok { c with logFile := some value }
  else invalid

def addSection (c : Config) (s : Task.Section) : Except TaskError Config :=
  if s.1 = "solver" then s.2.foldlM set c
  else if s.1 = "equations" then .ok { c with equations := c.equations ++ s.2 }
  else .error (.invalidValue "section" s.1)

def ofSections (ss : List Task.Section) : Except TaskError Config := ss.foldlM addSection {}

def ofText (text : String) : Except TaskError Config := (Task.parse text).bind ofSections

end Config
end Quadratics
