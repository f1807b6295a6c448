/-! Events that operations report while they run, each with a level, a message and named texts. -/
namespace RankedStore.Trace

inductive Level
  | trace
  | debug
  | info
  | warn
  | error
deriving DecidableEq

def Level.display : Level → String
  | .trace => "TRACE"
  | .debug => "DEBUG"
  | .info => "INFO"
  | .warn => "WARN"
  | .error => "ERROR"

structure Event where
  level : Level
  message : String
  fields : List (String × String)
deriving DecidableEq

end RankedStore.Trace
