/-!
# What a run shows

A run writes to its output, to its error output and to a log. The log has
levels, and the verbosity says how many of them are shown.
-/

namespace Calculator.CommandLine

inductive Level where
  | warn | info | debug | trace
  deriving DecidableEq, Repr

namespace Level

def name : Level → String
  | .warn => "WARN"
  | .info => "INFO"
  | .debug => "DEBUG"
  | .trace => "TRACE"

/-- The least verbosity that shows the level. -/
def verbosity : Level → Nat
  | .warn => 0
  | .info => 1
  | .debug => 2
  | .trace => 3

end Level

inductive Event where
  | out (text : String)
  | err (text : String)
  | log (level : Level) (text : String)
  deriving DecidableEq, Repr

namespace Event

def outLine (text : String) : Event := .out (text ++ "\n")

def errLine (text : String) : Event := .err (text ++ "\n")

/-- Whether the event is shown at a verbosity. -/
def isShown (verbosity : Nat) : Event → Bool
  | .log level _ => level.verbosity ≤ verbosity
  | _ => true

end Event

end Calculator.CommandLine
