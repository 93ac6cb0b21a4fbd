import GaugeConsole.Document.Date
import GaugeConsole.Document.Kind
import GaugeConsole.Text.Pieces

/-!
# What plain scalars are

A scalar without quotes is a truth value, a number, a date or nothing if it is spelled like one,
and a text otherwise. Whole numbers may be binary, octal after a zero, decimal, hexadecimal, or
written in sixtieths with colons; underscores between the digits say nothing. Other numbers need a
point, and a sign in their exponent.
-/

namespace GaugeConsole.Document

namespace Plain

/-- A word in lower case, with a capital letter, and in upper case. -/
def spellings (word : String) : List String := [word, word.capitalize, word.toUpper]

def trueWords : List String := ["yes", "true", "on"]

def falseWords : List String := ["no", "false", "off"]

def isBool (text : String) : Bool := text ∈ (trueWords ++ falseWords).flatMap spellings

def isNull (text : String) : Bool := text = "" || text = "~" || text ∈ spellings "null"

/-! ## Numbers -/

def isDigitOrUnderscore (c : Char) : Bool := isDigit c || c = '_'

/-- Digits with underscores behind the first of them. -/
def isRow (cs : List Char) : Bool := cs.head?.any isDigit && cs.all isDigitOrUnderscore

/-- A number below sixty of one or two digits. -/
def isSixtieth : List Char → Bool
  | [d] => isDigit d
  | [d, e] => isDigit d && d ≤ '5' && isDigit e
  | _ => false

/-- Digits of a base and underscores, at least one of the two. -/
def isInBase (base : Nat) (ds : List Char) : Bool :=
  ds ≠ [] && ds.all fun c => c = '_' || (hexValue? c).any (· < base)

def isInt (cs : List Char) : Bool :=
  match (takeSign cs).2 with
  | ['0'] => true
  | '0' :: 'b' :: ds => isInBase 2 ds
  | '0' :: 'x' :: ds => isInBase 16 ds
  | '0' :: ds => isInBase 8 ds
  | r =>
    match piecesAt ':' r with
    | first :: rest => isRow first && rest.all isSixtieth
    | [] => false

/-- A power of ten behind its mark, with its sign, or nothing. -/
def isPower : List Char → Bool
  | [] => true
  | e :: sign :: ds =>
    (e = 'e' || e = 'E') && (sign = '+' || sign = '-') && ds ≠ [] && ds.all isDigit
  | _ => false

/-- A number with a point. It has a sign only if a digit comes before the point. -/
def isDecimal (cs : List Char) : Bool :=
  let (_, r) := takeSign cs
  match r.dropWhile isDigitOrUnderscore with
  | '.' :: behind =>
    let whole := r.takeWhile isDigitOrUnderscore
    let fraction := behind.takeWhile isDigitOrUnderscore
    let begins := isRow whole || (whole = [] && r.length = cs.length && isRow fraction)
    begins && isPower (behind.dropWhile isDigitOrUnderscore)
  | _ => false

/-- A number in sixtieths with a point behind the last of them. -/
def isInSixtieths (cs : List Char) : Bool :=
  match piecesAt '.' (takeSign cs).2 with
  | [before, fraction] =>
    match piecesAt ':' before with
    | first :: next :: rest =>
      isRow first && (next :: rest).all isSixtieth && fraction.all isDigitOrUnderscore
    | _ => false
  | _ => false

def isFloat (cs : List Char) : Bool :=
  String.ofList (takeSign cs).2 ∈ (spellings "inf").map ("." ++ ·)
    || String.ofList cs ∈ [".nan", ".NaN", ".NAN"] || isDecimal cs || isInSixtieths cs

/-! ## Dates -/

def isDate (cs : List Char) : Bool :=
  (Date.read? cs).any fun d => d.time.isSome || cs.length = 10

end Plain

namespace Kind

/-- What a plain scalar is. A line feed at its end does not count, unless there is nothing else. -/
def ofPlain (text : String) : Kind :=
  let cs := text.toList
  let cs := if cs.getLast? = some '\n' ∧ cs ≠ ['\n'] then cs.dropLast else cs
  let text := String.ofList cs
  if Plain.isBool text then bool
  else if Plain.isFloat cs then float
  else if Plain.isInt cs then int
  else if text = "<<" then merge
  else if Plain.isNull text then null
  else if Plain.isDate cs then date
  else if text = "=" then default
  else .text

end Kind

end GaugeConsole.Document
