import Quadratics.Text.Blank
import Quadratics.Text.LowerCase
/-! How much is logged. -/
namespace Quadratics

/-- Each level lets through what the levels before it do. -/
inductive Level where
  | off | error | warn | info | debug
deriving DecidableEq

namespace Level

def rank : Level → Nat
  | .off => 0
  | .error => 1
  | .warn => 2
  | .info => 3
  | .debug => 4

def name : Level → String
  | .off => "OFF"
  | .error => "ERROR"
  | .warn => "WARN"
  | .info => "INFO"
  | .debug => "DEBUG"

/-- Blanks around the name and the case of its letters do not matter; a text that names no level is
handed back trimmed and in small letters. -/
def ofText (text : String) : Except String Level :=
  let name := String.ofList (Text.lower (Text.trim text.toList))
  if name = "debug" then .ok .debug
  else if name = "info" then .ok .info
  else if name = "warn" then .ok .warn
  else if name = "error" then .ok .error
  else if name = "off" ∨ name = "none" then .ok .off
  else .error name

end Level
end Quadratics
