import GaugeConsole.Command.Grammar

/-!
# Writing a metric into a line

A value stands between quotes, with a backslash before each quote and each backslash in it. The tags
of a metric stand in any order, with blanks around their equals signs only.
-/

namespace GaugeConsole

/-- A tag as it is written, with the blanks before and behind its equals sign. -/
structure WrittenTag where
  tag : String × String
  before : List Char := []
  behind : List Char := []

namespace WrittenTag

/-- A character as it stands between quotes. -/
def escape (c : Char) : List Char := if c = '"' ∨ c = '\\' then ['\\', c] else [c]

def text (t : WrittenTag) : List Char :=
  t.tag.1.toList ++ t.before ++ '=' :: t.behind ++ '"' :: t.tag.2.toList.flatMap escape ++ ['"']

def texts : List WrittenTag → List Char
  | [] => []
  | [t] => t.text
  | t :: ts => t.text ++ ',' :: texts ts

end WrittenTag

/-- One letter or more. -/
def Grammar.Word (s : String) : Prop := Grammar.Letters s.toList ∧ s ≠ ""

namespace Metric

/-- A metric that a line can say. -/
structure Lettered (m : Metric) : Prop where
  name : Grammar.Word m.name
  keys : ∀ k ∈ m.tags.keys, Grammar.Word k

/-- The texts of a metric. If it has no tags, the brackets can be left out. -/
inductive Written (m : Metric) : List Char → Prop
  | bare : m.tags.entries = [] → Written m m.name.toList
  | tagged {ts : List WrittenTag} : (ts.map WrittenTag.tag).Perm m.tags.entries →
      (∀ t ∈ ts, Grammar.Blanks t.before ∧ Grammar.Blanks t.behind) →
      Written m (m.name.toList ++ '[' :: WrittenTag.texts ts ++ [']'])

end Metric

end GaugeConsole
