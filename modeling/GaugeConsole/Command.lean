import GaugeConsole.Metric
import GaugeConsole.Decimal.Literal

/-!
# Commands

What an operator can ask for in one line.
-/

namespace GaugeConsole

inductive Command where
  | set (metric : Metric) (value : Binary64)
  | get (metric : Metric)
  | del (metric : Metric)
  | help
  | exit
deriving DecidableEq

namespace Command

/-- The word under which commands of a kind are counted. -/
def word : Command → String
  | set .. => "set"
  | get .. => "get"
  | del .. => "del"
  | help => "help"
  | exit => "exit"

end Command

end GaugeConsole
