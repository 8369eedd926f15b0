/-!
# Log records

What happened while a page was rendered, as records with a level, a message and named attributes.
-/

namespace Pagesmith.Log

inductive Level where
  | debug
  | warn
  | error
  deriving DecidableEq, Repr

def Level.name : Level → String
  | .debug => "DEBUG"
  | .warn => "WARN"
  | .error => "ERROR"

structure Record where
  level : Level
  message : String
  attributes : List (String × String) := []
  deriving DecidableEq, Repr

end Pagesmith.Log
