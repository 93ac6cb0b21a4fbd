import GaugeConsole.Decimal.Notation
import GaugeConsole.Metric

/-!
# Exposition

What a scrape gets to see: families of samples, and their text. Numbers are written with the
digits that identify them; a positive number with seven or more digits before the point gets a
power of ten instead. Underscores take the place of what a name cannot hold.

When a series was created is not told: such samples are taken to be switched off, though counters,
summaries and histograms claim the names that they would have.
-/

namespace GaugeConsole

inductive MetricKind where
  | gauge
  | counter
  | summary
  | histogram
deriving DecidableEq, Repr

namespace MetricKind

def word : MetricKind → String
  | gauge => "gauge"
  | counter => "counter"
  | summary => "summary"
  | histogram => "histogram"

/-- The names that a metric of a kind takes up, its own and those of its samples. -/
def claims (kind : MetricKind) (name : String) : List String :=
  match kind with
  | gauge => [name]
  | counter => [name, name ++ "_total", name ++ "_created"]
  | summary => [name, name ++ "_sum", name ++ "_count", name ++ "_created"]
  | histogram =>
    [name, name ++ "_bucket", name ++ "_sum", name ++ "_count", name ++ "_created"]

/-- The name that a family is headed with. -/
def heading (kind : MetricKind) (name : String) : String :=
  if kind = counter then name ++ "_total" else name

end MetricKind

/-- One number, with the name and the labels under which it is seen. -/
structure Sample where
  name : String
  labels : List (String × String) := []
  value : Binary64
deriving DecidableEq

structure MetricFamily where
  name : String
  kind : MetricKind
  documentation : String
  samples : List Sample
deriving DecidableEq

namespace Sample

def sortedLabels (s : Sample) : List (String × String) :=
  s.labels.mergeSort fun a b => decide (a.1 ≤ b.1)

end Sample

namespace Exposition

/-- One digit before the point, the rest after it, and the power of ten in two digits. -/
def withPower (l : Layout) : List Char :=
  let ds := natDigits (l.point - 1).toNat
  let mantissa := match l.digits with
    | [] => []
    | [d] => [d]
    | d :: r => d :: '.' :: r
  mantissa ++ 'e' :: '+' :: (if ds.length < 2 then '0' :: ds else ds)

def number : Binary64 → String
  | .infinite negative => if negative then "-Inf" else "+Inf"
  | .nan => "NaN"
  | .finite negative units below precise =>
    let l := Binary64.layout units
    if !negative && l.isPositional && 6 < l.point then String.ofList (withPower l)
    else Binary64.toText (.finite negative units below precise)

def escape (c : Char) : List Char :=
  if c = '\\' then ['\\', '\\']
  else if c = '\n' then ['\\', 'n']
  else if c = '"' then ['\\', '"']
  else [c]

inductive NameKind where
  /-- Names of metrics, which may hold colons. -/
  | metric
  | label
deriving DecidableEq, Repr

namespace NameKind

/-- Whether a character may stand in a name, though not at the beginning if it is a digit. -/
def admits (kind : NameKind) (c : Char) : Bool :=
  c.isAlphanum || c = '_' || (kind = metric && c = ':')

/-- A name with underscores in place of all that cannot stand in it. -/
def mend (kind : NameKind) : List Char → List Char
  | [] => []
  | c :: r =>
    (if kind.admits c && !isDigit c then c else '_') :: r.map fun c => if kind.admits c then c else '_'

/-- Whether a name needs no mending. A line feed behind it is overlooked, except behind a label
that begins with two underscores. -/
def isProper (kind : NameKind) (cs : List Char) : Bool :=
  let stem := if cs.getLast? = some '\n' then cs.dropLast else cs
  let reserved := kind = label && ['_', '_'].isPrefixOf cs
  stem ≠ [] && kind.mend stem = stem && !reserved

def expose (kind : NameKind) (name : String) : String :=
  let cs := name.toList
  if kind.isProper cs then name else String.ofList (kind.mend cs)

end NameKind

def labelText (label : String × String) : String :=
  NameKind.label.expose label.1 ++ "=\"" ++ String.ofList (label.2.toList.flatMap escape) ++ "\""

def sampleText (s : Sample) : String :=
  let labels := ",".intercalate (s.sortedLabels.map labelText)
  let labels := if s.labels.isEmpty then "" else "\x7b" ++ labels ++ "\x7d"
  NameKind.metric.expose s.name ++ labels ++ " " ++ number s.value ++ "\n"

def familyText (f : MetricFamily) : String :=
  let name := NameKind.metric.expose (f.kind.heading f.name)
  "# HELP " ++ name ++ " " ++ f.documentation ++ "\n"
    ++ "# TYPE " ++ name ++ " " ++ f.kind.word ++ "\n"
    ++ String.join (f.samples.map sampleText)

def text (families : List MetricFamily) : String := String.join (families.map familyText)

/-- Whether a sample has a name and exactly the given labels. -/
def isSample (name : String) (labels : Tags) (s : Sample) : Bool :=
  s.name = name && s.sortedLabels = Sample.sortedLabels ⟨name, labels.entries, .zero⟩

/-- The value of the first sample with a name and exactly the given labels. -/
def find? (families : List MetricFamily) (name : String) (labels : Tags) : Option Binary64 :=
  ((families.flatMap MetricFamily.samples).find? (isSample name labels)).map Sample.value

end Exposition

end GaugeConsole
