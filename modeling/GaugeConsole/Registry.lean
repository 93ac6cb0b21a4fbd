import GaugeConsole.Surface
import GaugeConsole.Log

/-!
# The registry of gauges

A gauge family comes into being with the first value set under its name, which fixes its label
names, and goes away with its last series. All this while it is meant to be on the surface. Tags
are read against the label names: a missing one counts as the empty text and one beyond them does
not count, so different tags may mean the same series.

Registering can fail, and then nothing has changed. When the surface refuses to let go of an
emptied family, the registry has forgotten it all the same.
-/

namespace GaugeConsole

structure GaugeFamily where
  name : String
  labelNames : List String
  /-- Values by the label values, which stand in the order of the label names. -/
  series : OrderedMap (List String) Binary64 := {}
  epoch : Nat
deriving DecidableEq

namespace GaugeFamily

/-- The label values that tags mean in this family. -/
def resolve (f : GaugeFamily) (tags : Tags) : List String :=
  f.labelNames.map fun key => (tags.get? key).getD ""

/-- The value of the series that tags mean; one that is not there reads as zero. -/
def read (f : GaugeFamily) (tags : Tags) : Binary64 := (f.series.get? (f.resolve tags)).getD .zero

def put (f : GaugeFamily) (tags : Tags) (value : Binary64) : GaugeFamily :=
  { f with series := f.series.insert (f.resolve tags) value }

def drop (f : GaugeFamily) (tags : Tags) : GaugeFamily :=
  { f with series := f.series.erase (f.resolve tags) }

def collector (f : GaugeFamily) : Collector := .shell f.name f.epoch

def documentation : String := "Gauge managed from the interactive shell"

def expose (f : GaugeFamily) : MetricFamily where
  name := f.name
  kind := .gauge
  documentation := documentation
  samples := f.series.entries.map fun (values, value) => ⟨f.name, f.labelNames.zip values, value⟩

end GaugeFamily

inductive RegistryError where
  | metricNotFound (name : String)
  | seriesNotFound (metric : Metric)
  | registration (name : String) (cause : RegisterError)
  | unregistration (name : String)
deriving DecidableEq

namespace RegistryError

def message : RegistryError → String
  | metricNotFound name => "metric not found: " ++ name
  | seriesNotFound metric => "series not found: " ++ metric.identity
  | registration name cause => "failed to register metric " ++ name ++ ": " ++ cause.message
  | unregistration name => "failed to unregister metric " ++ name

end RegistryError

inductive Lifetime where
  | registered (name : String) (labelNames : List String)
  | unregistered (name : String)
deriving DecidableEq

namespace Lifetime

def message : Lifetime → String
  | registered name labelNames =>
    "Registered gauge " ++ name ++ " with labels " ++ quotedList labelNames
  | unregistered name => "Unregistered gauge " ++ name

def record (l : Lifetime) : Record := ⟨.info, .registry, l.message⟩

end Lifetime

/-- Why the surface has nothing to show: a collector failed, and said so. -/
structure CollectError where
  message : String
deriving DecidableEq, Repr

structure Registry where
  families : OrderedMap String GaugeFamily := {}
  surface : Surface := {}
  /-- How many families there have been, which is the next one's epoch. -/
  created : Nat := 0
deriving DecidableEq

namespace Registry

def family? (r : Registry) (name : String) : Option GaugeFamily := r.families.get? name

/-- Puts a family in place of the one of the same name, or after all others. -/
def hold (r : Registry) (f : GaugeFamily) : Registry :=
  { r with families := r.families.insert f.name f }

/-- A new family for a metric, still without a series. -/
def familyFor (r : Registry) (m : Metric) : GaugeFamily where
  name := m.name
  labelNames := sortTexts m.tags.keys
  epoch := r.created

/-- Sets the value of a series, and creates the family if there is none of the name. -/
def add (r : Registry) (m : Metric) (value : Binary64) :
    Registry × Except RegistryError (Option Lifetime) :=
  match r.family? m.name with
  | some f => (r.hold (f.put m.tags value), .ok none)
  | none =>
    let f := r.familyFor m
    match r.surface.register f.collector with
    | .error cause => (r, .error (.registration m.name cause))
    | .ok surface =>
      ({ r with surface := surface, created := r.created + 1 }.hold (f.put m.tags value),
        .ok (some (.registered m.name f.labelNames)))

/-- The value of a series of a family that is held. -/
def get (r : Registry) (m : Metric) : Except RegistryError Binary64 :=
  match r.family? m.name with
  | none => .error (.metricNotFound m.name)
  | some f => .ok (f.read m.tags)

/-- Removes a series, and its family with the last of them. Under a name that is not held there is
nothing to do. -/
def remove (r : Registry) (m : Metric) : Registry × Except RegistryError (Option Lifetime) :=
  match r.family? m.name with
  | none => (r, .ok none)
  | some f =>
    if (f.series.get? (f.resolve m.tags)).isNone then (r, .error (.seriesNotFound m))
    else if (f.drop m.tags).series.isEmpty then
      let r := { r with families := r.families.erase m.name }
      match r.surface.unregister f.collector with
      | none => (r, .error (.unregistration m.name))
      | some surface => ({ r with surface := surface }, .ok (some (.unregistered m.name)))
    else (r.hold (f.drop m.tags), .ok none)

def names (r : Registry) : List String := sortTexts r.families.keys

def familyCount (r : Registry) : Nat := r.families.size

def seriesCount (r : Registry) : Nat := r.families.values.foldr (fun f n => f.series.size + n) 0

/-- What one collector shows. A gauge family shows the series that the registry holds for it. -/
def collect (r : Registry) (self : Option SelfMetrics) :
    Collector → Except CollectError (List MetricFamily)
  | .shell name epoch =>
    .ok ((r.family? name).filter (·.epoch = epoch) |>.map GaugeFamily.expose).toList
  | .self _ metric => .ok (self.map (·.expose metric)).toList
  | .foreign _ shown => .ok shown
  | .failing _ message => .error ⟨message⟩

/-- What all collectors show, in the order of the surface. -/
def snapshot (r : Registry) (self : Option SelfMetrics) : Except CollectError (List MetricFamily) :=
  (r.surface.collectors.mapM (r.collect self)).map List.flatten

/-- The value of the first sample with a name and exactly the given labels. Collectors after the
one that shows it are not asked. -/
def sample? (r : Registry) (self : Option SelfMetrics) (name : String) (labels : Tags) :
    Except CollectError (Option Binary64) :=
  go r.surface.collectors
where
  go : List Collector → Except CollectError (Option Binary64)
    | [] => .ok none
    | c :: cs => do
      match Exposition.find? (← r.collect self c) name labels with
      | some value => return some value
      | none => go cs

end Registry

end GaugeConsole
