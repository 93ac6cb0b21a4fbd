import GaugeConsole.Address
import GaugeConsole.Decimal.Literal
import GaugeConsole.Document.Value
import GaugeConsole.Text.Base64

/-!
# Fields of the settings

How a value of a document is taken for a setting of some type, and what is wrong with it if it
cannot be. A check of several fields complains of all that are wrong, in the order of the fields.
-/

namespace GaugeConsole

open Document (Value)

inductive Problem where
  | notText
  /-- A text holds half a character, or bytes encode none. -/
  | notUnicode
  | notFormat
  | notNumber
  | unreadableNumber
  | notPositive
  | notTruth
  | unreadableTruth
  | notWhole
  | unreadableWhole
  | fraction
  | notFinite
  | tooLarge
  | notSection
  | address (error : AddressError)
deriving DecidableEq, Repr

namespace Problem

def word : Problem → String
  | notText => "string_type"
  | notUnicode => "string_unicode"
  | notFormat => "literal_error"
  | notNumber => "float_type"
  | unreadableNumber => "float_parsing"
  | notPositive => "greater_than"
  | notTruth => "bool_type"
  | unreadableTruth => "bool_parsing"
  | notWhole => "int_type"
  | unreadableWhole => "int_parsing"
  | fraction => "int_from_float"
  | notFinite => "finite_number"
  | tooLarge => "int_parsing_size"
  | notSection => "model_type"
  | address _ => "value_error"

def detail? : Problem → Option String
  | address e => some ("Value error, " ++ e.message)
  | _ => none

end Problem

/-- A problem and the keys that lead to the value that has it. -/
structure Complaint where
  place : List String
  problem : Problem
deriving DecidableEq, Repr

inductive Checked (α : Type) where
  | ok (a : α)
  | failed (complaints : List Complaint)
deriving DecidableEq, Repr

namespace Checked

def map {α β : Type} (f : α → β) : Checked α → Checked β
  | ok a => ok (f a)
  | failed cs => failed cs

/-- Both checks: the complaints of the first come before those of the second. -/
def and {α β : Type} : Checked α → Checked β → Checked (α × β)
  | ok a, ok b => ok (a, b)
  | ok _, failed ds => failed ds
  | failed cs, ok _ => failed cs
  | failed cs, failed ds => failed (cs ++ ds)

/-- A setting that may be missing from its section. -/
def field {α : Type} (here : String) (entries : List (Value × Value)) (key : String) (default : α)
    (read : Value → Except Problem α) : Checked α :=
  match Value.find? key entries with
  | none => ok default
  | some v =>
    match read v with
    | .ok a => ok a
    | .error p => failed [⟨[here, key], p⟩]

/-- A section that may be missing, under the first of its names that is there. -/
def group {α : Type} (entries : List (Value × Value)) (names : List String) (default : α)
    (read : String → List (Value × Value) → Checked α) : Checked α :=
  match names.findSome? fun name => (Value.find? name entries).map (name, ·) with
  | none => ok default
  | some (name, .mapping fields) => read name fields
  | some (name, _) => failed [⟨[name], .notSection⟩]

end Checked

namespace Field

/-- Bytes are as good as the text that they encode. -/
def text : Value → Except Problem String
  | .text s => .ok s
  | .bytes data =>
    match ofUtf8? data with
    | some s => .ok s
    | none => .error .notUnicode
  | _ => .error .notText

def optionalText : Value → Except Problem (Option String)
  | .null => .ok none
  | v => (text v).map some

/-- The text that a value is to be read from, if it is one. -/
def readable? (unreadable : Problem) : Value → Option (Except Problem String)
  | .text s => some (if hasHalf s then .error .notUnicode else .ok s)
  | .bytes data => some ((ofUtf8? data).elim (.error unreadable) .ok)
  | _ => none

def fromText {α : Type} (unreadable other : Problem) (read : String → Except Problem α)
    (v : Value) : Except Problem α :=
  match readable? unreadable v with
  | some s => s >>= read
  | none => .error other

/-- A text without its underscores, each of which stands alone and inside. -/
def withoutUnderscores? (cs : List Char) : Option (List Char) :=
  let lone := (cs.zip cs.tail).all fun (c, d) => !(c = '_' && d = '_')
  if cs.head? ≠ some '_' ∧ cs.getLast? ≠ some '_' ∧ lone then some (cs.filter (· ≠ '_')) else none

/-! ## Numbers -/

/-- The number of a text that has either white space around it or underscores in it. -/
def numberOfText (s : String) : Except Problem Binary64 :=
  let cs := s.toList
  match (Literal.number? (stripBy isWhite cs)).or
      ((withoutUnderscores? cs).bind Literal.number?) with
  | some x => .ok x
  | none => .error .unreadableNumber

def number : Value → Except Problem Binary64
  | .float x => .ok x
  | .int n =>
    match Binary64.ofInt n with
    | .infinite _ => .error .notNumber
    | x => .ok x
  | .bool b => .ok (.ofNat (if b then 1 else 0))
  | v => fromText .unreadableNumber .notNumber numberOfText v

def positive (v : Value) : Except Problem Binary64 := do
  let x ← number v
  if Binary64.zero.lt x then return x else throw .notPositive

/-! ## Whole numbers -/

/-- Leaves out zeros and underscores behind a first zero, as long as something else follows that
can be part of a number. `last` is what was left out last. -/
def dropZeros (last : Char) : List Char → Option (List Char)
  | [] => some [last]
  | c :: r =>
    if c = '0' ∨ c = '_' then dropZeros c r
    else if isDigit c ∨ c = '-' then some (c :: r)
    else if c = '.' then some (last :: c :: r)
    else none

/-- Leaves out the zeros in front of a number, which has to begin with a digit. -/
def withoutZeros? : List Char → Option (List Char)
  | '0' :: r => dropZeros '0' r
  | c :: r => if isDigit c then some (c :: r) else none
  | [] => none

/-- Leaves out a point and zeros that a number may end in. -/
def wholePart (cs : List Char) : List Char :=
  match cs.dropWhile (· ≠ '.') with
  | _ :: zeros => if zeros ≠ [] ∧ zeros.all (· = '0') then cs.takeWhile (· ≠ '.') else cs
  | [] => cs

/-- The number that digits without needless zeros stand for. A number with too many characters is
too large whatever comes after them. -/
def wholeOfDigits (negative : Bool) (cs : List Char) : Except Problem Int :=
  let ds := cs.takeWhile isDigit
  let length := ds.length + (if negative then 1 else 0)
  if ds = [] ∨ (ds.head? = some '0' ∧ ds ≠ ['0']) then .error .unreadableWhole
  else if Integer.maxDigits < length then .error .tooLarge
  else if ds ≠ cs then .error .unreadableWhole
  else .ok (if negative then -(ofDigits ds : Int) else ofDigits ds)

/-- The whole number of a text. It may be signed in front of the zeros that it begins with, or
behind them if it is negative. -/
def wholeOfText (s : String) : Except Problem Int :=
  let (negative, r) := takeSign (stripBy isWhite s.toList)
  match withoutZeros? r with
  | none => .error .unreadableWhole
  | some r =>
    let r := wholePart r
    match negative, (withoutUnderscores? r).getD r with
    | true, '-' :: _ => .error .unreadableWhole
    | false, '-' :: ds => wholeOfDigits true ds
    | _, ds => wholeOfDigits negative ds

/-- Signed words of 64 bits stay below this. -/
def wordLimit : Int := 9223372036854775808

/-- A whole number of the other number type, as far as words of 64 bits reach. -/
def wholeOfNumber (x : Binary64) : Except Problem Int :=
  match x with
  | .finite .. =>
    match x.toInt? with
    | none => .error .fraction
    | some n => if -wordLimit < n ∧ n < wordLimit then .ok n else .error .tooLarge
  | _ => .error .notFinite

def whole : Value → Except Problem Int
  | .int n => .ok n
  | .bool b => .ok (if b then 1 else 0)
  | .float x => wholeOfNumber x
  | v => fromText .unreadableWhole .notWhole wholeOfText v

/-! ## Truth values -/

def trueWords : List String := ["1", "on", "t", "true", "y", "yes"]

def falseWords : List String := ["0", "off", "f", "false", "n", "no"]

def truthOfText (s : String) : Except Problem Bool :=
  if s.toLower ∈ trueWords then .ok true
  else if s.toLower ∈ falseWords then .ok false
  else .error .unreadableTruth

def truthOfWhole (n : Int) : Except Problem Bool :=
  if n = 1 then .ok true else if n = 0 then .ok false else .error .unreadableTruth

/-- A whole number beyond words of 64 bits is no truth value, and neither is one with a
fraction. -/
def truth : Value → Except Problem Bool
  | .bool b => .ok b
  | .int n =>
    if -wordLimit ≤ n ∧ n < wordLimit then truthOfWhole n else .error .notTruth
  | .float x =>
    match wholeOfNumber x with
    | .ok n => truthOfWhole n
    | .error _ => .error .notTruth
  | v => fromText .unreadableTruth .notTruth truthOfText v

end Field

end GaugeConsole
