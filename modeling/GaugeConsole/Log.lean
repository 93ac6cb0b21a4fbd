/-!
# Log records

What the parts of the program report, and how urgent it is.
-/

namespace GaugeConsole

inductive Level where
  | debug
  | info
  | warning
  | error
  | critical
deriving DecidableEq, Repr

namespace Level

def word : Level → String
  | debug => "DEBUG"
  | info => "INFO"
  | warning => "WARNING"
  | error => "ERROR"
  | critical => "CRITICAL"

/-- How urgent a level is: a record is shown if it is at least as urgent as the threshold. -/
def urgency : Level → Nat
  | debug => 10
  | info => 20
  | warning => 30
  | error => 40
  | critical => 50

end Level

inductive Source where
  | main
  | exporter
  | registry
  | interpreter
  | shell
deriving DecidableEq, Repr

namespace Source

def name : Source → String
  | main => "gaugeshell.main"
  | exporter => "gaugeshell.exporter"
  | registry => "gaugeshell.registry"
  | interpreter => "gaugeshell.interpreter"
  | shell => "gaugeshell.shell"

end Source

structure Record where
  level : Level
  source : Source
  message : String
deriving DecidableEq, Repr

end GaugeConsole
