import GaugeConsole.Decimal.Binary64

/-!
# Values

What a document holds. A mapping keeps its entries as they come, and of several entries with one
key the last one counts; so an entry is set by appending it.
-/

namespace GaugeConsole.Document

inductive Value where
  | null
  | bool (b : Bool)
  | int (n : Int)
  | float (x : Binary64)
  | text (s : String)
  | bytes (data : List UInt8)
  /-- A date, with or without a time. Which one it is makes no difference. -/
  | date (timed : Bool)
  | list (items : List Value)
  | set (members : List Value)
  | mapping (entries : List (Value × Value))
deriving Inhabited

namespace Value

def typeName : Value → String
  | null => "NoneType"
  | bool _ => "bool"
  | int _ => "int"
  | float _ => "float"
  | text _ => "str"
  | bytes _ => "bytes"
  | date timed => if timed then "datetime.datetime" else "datetime.date"
  | list _ => "list"
  | set _ => "set"
  | mapping _ => "dict"

/-- Whether a value says nothing: it is missing, false, zero or empty. -/
def isVoid : Value → Bool
  | null => true
  | bool b => !b
  | int n => n = 0
  | float x => x.toInt? = some 0
  | text s => s.isEmpty
  | bytes data => data.isEmpty
  | date _ => false
  | list items => items.isEmpty
  | set members => members.isEmpty
  | mapping entries => entries.isEmpty

def isText : Value → Bool
  | text _ => true
  | _ => false

def find? (key : String) (entries : List (Value × Value)) : Option Value :=
  entries.foldl (fun found (k, v) => match k with
    | text s => if s = key then some v else found
    | _ => found) none

/-- A mapping with the value under a key replaced or added. -/
def put (key : String) (v : Value) (entries : List (Value × Value)) : List (Value × Value) :=
  entries ++ [(text key, v)]

theorem find?_put_self (key : String) (v : Value) (entries : List (Value × Value)) :
    find? key (put key v entries) = some v := by
  simp [find?, put]

theorem find?_put_of_ne {key other : String} (h : other ≠ key) (v : Value)
    (entries : List (Value × Value)) : find? key (put other v entries) = find? key entries := by
  simp [find?, put, h]

end Value

end GaugeConsole.Document
