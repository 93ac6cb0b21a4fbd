import GaugeConsole.OrderedMap

/-!
# Metrics

A metric is a name and the tags that narrow it down to one series. Its printed identity lists the
tags in the order of their keys, so it does not depend on the order in which they were given.
-/

namespace GaugeConsole

abbrev Tags := OrderedMap String String

structure Metric where
  name : String
  tags : Tags := {}
deriving DecidableEq, Inhabited

/-- Texts in ascending order of their code points. -/
def sortTexts (texts : List String) : List String :=
  texts.mergeSort fun a b => decide (a ≤ b)

namespace Metric

def sortedTags (m : Metric) : List (String × String) :=
  (sortTexts m.tags.keys).map fun k => (k, (m.tags.get? k).getD "")

def labelKey (m : Metric) : String :=
  ",".intercalate (m.sortedTags.map fun (k, v) => k ++ "=" ++ v)

/-- The name, and the tags in brackets if there are any. -/
def identity (m : Metric) : String :=
  if m.tags.isEmpty then m.name else m.name ++ "[" ++ m.labelKey ++ "]"

end Metric

end GaugeConsole
