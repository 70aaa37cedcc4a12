/-! Why a task file or a setting is refused. -/
namespace Quadratics

inductive TaskError where
  | io (reason : String)
  | parse (line : String)
  | invalidValue (key value : String)
deriving DecidableEq

def TaskError.message : TaskError → String
  | .io reason => s!"cannot read task: {reason}"
  | .parse line => s!"cannot parse task near '{line}'"
  | .invalidValue key value => s!"invalid value '{value}' for '{key}'"

end Quadratics
