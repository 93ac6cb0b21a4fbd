import GaugeConsole.Text.Blank
import GaugeConsole.Text.Numeral

/-!
# History

The lines that the operator entered, from earlier sessions and this one. A line that is blank or
begins with a space is not remembered. A history file has one line for each entry; reading it
drops empty lines and whatever stands after the last line feed, and in a file that begins with the
time of an entry the lines that tell such times. Writing it keeps the last lines up to a limit.
-/

namespace GaugeConsole

namespace History

def isKept (line : String) : Bool :=
  let cs := line.toList
  !cs.all isSpace && cs.head? ≠ some ' '

def remember (entries : List String) (line : String) : List String :=
  if isKept line then entries ++ [line] else entries

def terminated : List Char → List (List Char)
  | [] => []
  | '\n' :: r => [] :: terminated r
  | c :: r =>
    match terminated r with
    | [] => []
    | l :: ls => (c :: l) :: ls

/-- Leaves out the carriage return that may stand before the line feed. -/
def dropReturn (l : List Char) : List Char := if l.getLast? = some '\r' then l.dropLast else l

/-- A line has no more than what comes before a null character. -/
def visible (l : List Char) : List Char := (dropReturn l).takeWhile (· ≠ '\x00')

/-- Whether a text begins like a line that tells the time of an entry. -/
def isTime : List Char → Bool
  | '#' :: c :: _ => isDigit c
  | _ => false

def ofText (text : String) : List String :=
  let lines := (terminated text.toList).map visible
  let lines := if isTime text.toList then lines.filter (!isTime ·) else lines
  (lines.filter (· ≠ [])).map String.ofList

/-- The last lines up to a limit; a negative limit keeps them all. -/
def lastLines (limit : Int) (lines : List (List Char)) : List (List Char) :=
  if limit < 0 then lines else lines.drop (lines.length - limit.toNat)

/-- The lines by which a history file is measured. A line feed at the very beginning ends none. -/
def measured (text : List Char) : List (List Char) :=
  match terminated text with
  | [] :: l :: ls => ('\n' :: l) :: ls
  | ls => ls

def toText (limit : Int) (entries : List String) : String :=
  let all := entries.flatMap fun e => e.toList ++ ['\n']
  String.ofList ((lastLines limit (measured all)).flatMap (· ++ ['\n']))

/-- Whether an entry can be kept at all: it holds no null character. -/
def isEntry (line : String) : Bool := !line.toList.contains '\x00'

/-- Limits outside the range of a 32-bit integer cannot be kept. -/
def isLimit (limit : Int) : Bool := -2147483648 ≤ limit && limit < 2147483648

end History

end GaugeConsole
