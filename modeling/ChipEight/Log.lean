namespace ChipEight.Log

/-- Severities, least severe first. -/
inductive Level
  | trace
  | debug
  | info
  | warning
  | error
  | critical
  deriving DecidableEq

def Level.all : List Level := [.trace, .debug, .info, .warning, .error, .critical]

def Level.name : Level → String
  | .trace => "trace"
  | .debug => "debug"
  | .info => "info"
  | .warning => "warning"
  | .error => "error"
  | .critical => "critical"

/-- Named texts that belong to a record or to a logger. -/
abbrev Fields := List (String × String)

structure Record where
  level : Level
  message : String
  fields : Fields
  deriving DecidableEq

/-- Adds its own fields to every record. -/
structure Logger where
  context : Fields
  deriving DecidableEq

/-- A logger for a part of what `log` covers. -/
def Logger.child (log : Logger) (fields : Fields) : Logger := ⟨fields ++ log.context⟩

/-- Without a logger nothing is recorded. -/
def emit (log : Option Logger) (level : Level) (message : String) (fields : Fields) :
    List Record :=
  log.toList.map fun l => ⟨level, message, fields ++ l.context⟩

end ChipEight.Log
