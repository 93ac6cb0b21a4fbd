import GaugeConsole.Histogram

/-!
# Self metrics

What the program tells about its own work: the commands it executed, those that failed, how long
its refreshes took, and how many families and series it held at the last of them. The names of all
five begin with one stem.
-/

namespace GaugeConsole

inductive SelfMetric where
  | commands
  | commandErrors
  | refreshDuration
  | families
  | series
deriving DecidableEq, Repr

namespace SelfMetric

/-- The five of them, in the order in which they are exposed. -/
def all : List SelfMetric := [commands, commandErrors, refreshDuration, families, series]

def kind : SelfMetric → MetricKind
  | commands | commandErrors => .counter
  | refreshDuration => .histogram
  | families | series => .gauge

def name : SelfMetric → String
  | commands => "commands"
  | commandErrors => "command_errors"
  | refreshDuration => "refresh_duration_seconds"
  | families => "families"
  | series => "series"

def documentation : SelfMetric → String
  | commands => "Total number of commands executed"
  | commandErrors => "Total number of rejected or failed commands"
  | refreshDuration => "Duration of each snapshot refresh in seconds"
  | families => "Number of gauge families created from the shell"
  | series => "Number of series across all shell gauges"

end SelfMetric

structure SelfMetrics where
  stem : String
  /-- Executed commands by their word. -/
  commands : OrderedMap String Nat := {}
  /-- Rejected and failed commands by the kind of failure. -/
  commandErrors : OrderedMap String Nat := {}
  refreshDuration : Histogram
  families : Nat := 0
  series : Nat := 0
deriving DecidableEq

namespace SelfMetrics

def defaultStem : String := "gaugeshell_"

/-- The upper bounds, in seconds, by which refreshes are counted. -/
def durationBounds : List Decimal :=
  [⟨1, -4⟩, ⟨5, -4⟩, ⟨1, -3⟩, ⟨5, -3⟩, ⟨1, -2⟩, ⟨5, -2⟩, ⟨1, -1⟩, ⟨5, -1⟩, ⟨1, 0⟩]

def start (stem : String) : SelfMetrics :=
  { stem := stem, refreshDuration := .empty durationBounds }

def tally (m : OrderedMap String Nat) (key : String) : OrderedMap String Nat :=
  m.insert key ((m.get? key).getD 0 + 1)

def recordCommand (s : SelfMetrics) (word : String) : SelfMetrics :=
  { s with commands := tally s.commands word }

def recordError (s : SelfMetrics) (kind : String) : SelfMetrics :=
  { s with commandErrors := tally s.commandErrors kind }

def recordDuration (s : SelfMetrics) (seconds : Binary64) : SelfMetrics :=
  { s with refreshDuration := s.refreshDuration.observe seconds }

def setActive (s : SelfMetrics) (families series : Nat) : SelfMetrics :=
  { s with families := families, series := series }

/-- The samples of a counter, one for each value of its label that occurred. -/
def tallySamples (name label : String) (m : OrderedMap String Nat) : List Sample :=
  m.entries.map fun (key, n) => ⟨name ++ "_total", [(label, key)], .ofNat n⟩

def samples (s : SelfMetrics) (metric : SelfMetric) (name : String) : List Sample :=
  match metric with
  | .commands => tallySamples name "command" s.commands
  | .commandErrors => tallySamples name "kind" s.commandErrors
  | .refreshDuration => s.refreshDuration.samples name
  | .families => [⟨name, [], .ofNat s.families⟩]
  | .series => [⟨name, [], .ofNat s.series⟩]

def expose (s : SelfMetrics) (metric : SelfMetric) : MetricFamily :=
  let name := s.stem ++ metric.name
  ⟨name, metric.kind, metric.documentation, s.samples metric name⟩

end SelfMetrics

end GaugeConsole
