/-!
# Kinds of values

The types that the parts of a document have. A tag names the type of the value under it; without a
tag a scalar between quotes is a text, and of a plain one the spelling decides.
-/

namespace GaugeConsole.Document

inductive Kind where
  | null
  | bool
  | int
  | float
  | bytes
  | date
  | text
  | list
  | set
  /-- A list of pairs, each of which is written as a mapping of one entry. -/
  | pairs
  | mapping
  /-- A key that includes the entries of other mappings. -/
  | merge
  /-- A key that stands for the value of its mapping. -/
  | default
  | unknown
deriving DecidableEq, Repr

namespace Kind

/-- The beginning that the names of the common types share. -/
def common : String := "tag:yaml.org,2002:"

/-- The common types by what their names end in. -/
def names : List (String × Kind) :=
  [("null", null), ("bool", bool), ("int", int), ("float", float), ("binary", bytes),
    ("timestamp", date), ("str", text), ("seq", list), ("set", set), ("omap", pairs),
    ("pairs", pairs), ("map", mapping), ("merge", merge), ("value", default)]

def ofName (name : String) : Kind :=
  ((names.find? fun (ending, _) => common ++ ending = name).map Prod.snd).getD unknown

/-- Whether the values of a type are made of others. -/
def isCollection : Kind → Bool
  | list | set | pairs | mapping => true
  | _ => false

end Kind

end GaugeConsole.Document
