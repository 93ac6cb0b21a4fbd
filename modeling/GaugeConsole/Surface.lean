import GaugeConsole.SelfMetrics
import GaugeConsole.Text.Quoted

/-!
# The exposition surface

The collectors that a scrape asks for samples, in the order in which they were registered. Each
claims some names, and none is registered whose claims another one has (`Surface.register`).
-/

namespace GaugeConsole

inductive Collector where
  /-- A gauge family of the registry. The epoch tells apart the families that one name had. -/
  | shell (name : String) (epoch : Nat)
  | self (stem : String) (metric : SelfMetric)
  /-- A collector of somebody else: the names that it describes, and what it shows whenever it is
  asked. -/
  | foreign (names : List String) (shown : List MetricFamily)
  /-- A collector of somebody else that fails whenever it is asked, and what it says then. -/
  | failing (names : List String) (message : String)
deriving DecidableEq

namespace Collector

def claims : Collector → List String
  | shell name _ => [name]
  | self stem metric => metric.kind.claims (stem ++ metric.name)
  | foreign names _ | failing names _ => names

/-- The bounds of a histogram that somebody else registered. -/
def foreignBounds : List Decimal :=
  [⟨5, -3⟩, ⟨1, -2⟩, ⟨25, -3⟩, ⟨5, -2⟩, ⟨75, -3⟩, ⟨1, -1⟩, ⟨25, -2⟩, ⟨5, -1⟩, ⟨75, -2⟩, ⟨1, 0⟩,
    ⟨25, -1⟩, ⟨5, 0⟩, ⟨75, -1⟩, ⟨10, 0⟩]

/-- What a foreign metric shows, which is never used. -/
def exposeForeign (kind : MetricKind) (name documentation : String) : MetricFamily :=
  let samples : List Sample := match kind with
    | .gauge => [⟨name, [], .zero⟩]
    | .counter => [⟨name ++ "_total", [], .zero⟩]
    | .summary => [⟨name ++ "_count", [], .zero⟩, ⟨name ++ "_sum", [], .zero⟩]
    | .histogram => (Histogram.empty foreignBounds).samples name
  ⟨name, kind, documentation, samples⟩

/-- A foreign metric without labels. A counter's name is known without its ending. -/
def ofForeign (kind : MetricKind) (name documentation : String) : Collector :=
  let cs := name.toList
  let ending := "_total".toList
  let stem := if kind = .counter ∧ ending.isSuffixOf cs then
      String.ofList (cs.take (cs.length - ending.length))
    else name
  foreign (kind.claims stem) [exposeForeign kind stem documentation]

end Collector

inductive RegisterError where
  /-- There is no name to make a metric's name from. -/
  | noName
  | emptyName
  | duplicated (names : List String)
deriving DecidableEq, Repr

namespace RegisterError

def message : RegisterError → String
  | noName => "Metric name should not be empty"
  | emptyName => "metric name cannot be empty"
  | duplicated names =>
    "Duplicated timeseries in CollectorRegistry: \x7b"
      ++ ", ".intercalate (names.map quoted) ++ "\x7d"

end RegisterError

structure Surface where
  collectors : List Collector := []
deriving DecidableEq

namespace Surface

def claims (s : Surface) (name : String) : Bool :=
  s.collectors.any fun c => c.claims.contains name

/-- Puts a collector last, if no name that it claims is taken. -/
def register (s : Surface) (c : Collector) : Except RegisterError Surface :=
  let taken := c.claims.filter s.claims
  if c.claims.head? = some "" then .error .emptyName
  else if taken ≠ [] then .error (.duplicated taken)
  else .ok ⟨s.collectors ++ [c]⟩

/-- Registers a metric for somebody else, who has to give it a name. -/
def reserve (s : Surface) (kind : MetricKind) (name documentation : String) :
    Except RegisterError Surface :=
  if name = "" then .error .noName else s.register (.ofForeign kind name documentation)

def unregister (s : Surface) (c : Collector) : Option Surface :=
  if c ∈ s.collectors then some ⟨s.collectors.erase c⟩ else none

/-- A surface that shows the self metrics and nothing else. -/
def ofSelfMetrics (stem : String) : Surface := ⟨SelfMetric.all.map (.self stem)⟩

end Surface

end GaugeConsole
