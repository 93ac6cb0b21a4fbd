import GaugeConsole.Decimal.Literal
import GaugeConsole.Document.Meaningless
import GaugeConsole.Document.Plain
import GaugeConsole.Document.Value
import GaugeConsole.Text.Base64
import GaugeConsole.Text.Integer

/-!
# What scalars mean

The value of a scalar's text, given its type. The text need not be spelled as it would have to be
without a tag: numbers may have white space around them and digits of any script.
-/

namespace GaugeConsole.Document

namespace Meaning

/-! ## Whole numbers -/

/-- The letter that may stand between a zero and the digits of a base. -/
def baseLetter? : Nat → Option Char
  | 2 => some 'b'
  | 8 => some 'o'
  | 16 => some 'x'
  | _ => none

/-- Leaves out the zero and the letter that a number may begin with. -/
def dropBase (base : Nat) : List Char → List Char
  | '0' :: c :: r => if baseLetter? base = some c.toLower then r else '0' :: c :: r
  | r => r

/-- The value of a digit, which may be a letter beyond nine. -/
def digitOf? (base : Nat) (c : Char) : Option Nat :=
  ((digitValue? c).or (hexValue? c)).filter (· < base)

/-- The whole number of a text. Only a base that is a power of two admits any number of digits. -/
def wholeIn (base : Nat) (text : List Char) : Except Meaningless Int :=
  let (negative, r) := takeSign (stripBy isWhite text)
  let r := dropBase base r
  let ds := (r.takeWhile fun c => (digitOf? base c).isSome).filterMap (digitOf? base)
  if base = 10 ∧ Integer.maxDigits < ds.length then .error (.tooLong ds.length)
  else if ds = [] ∨ ds.length < r.length then .error (.whole base (String.ofList text))
  else
    let n := ds.foldl (fun n d => base * n + d) 0
    .ok (if negative then -(n : Int) else n)

/-- The number in front of the underscores taken out, and the sign before it. -/
def signed (cs : List Char) : Except Meaningless (Bool × List Char) :=
  match cs.filter (· ≠ '_') with
  | [] => .error .empty
  | cs => .ok (takeSign cs)

/-- The whole number that a text in one of the bases stands for. -/
def whole (text : String) : Except Meaningless Int := do
  let (negative, r) ← signed text.toList
  let n : Int ← match r with
    | [] => throw .empty
    | ['0'] => pure 0
    | '0' :: 'b' :: ds => wholeIn 2 ds
    | '0' :: 'x' :: ds => wholeIn 16 ds
    | '0' :: _ => wholeIn 8 r
    | _ =>
      if ':' ∈ r then
        let parts ← (piecesAt ':' r).mapM (wholeIn 10)
        pure (parts.foldl (fun n part => 60 * n + part) 0)
      else wholeIn 10 r
  return if negative then -n else n

/-! ## Numbers with a point -/

/-- Writes the digits of other scripts as those that literals are made of. -/
def plainDigit (c : Char) : Char :=
  match digitValue? c with
  | some d => Char.ofNat ('0'.toNat + d)
  | none => c

def decimal (cs : List Char) : Except Meaningless Binary64 :=
  match Literal.number? (stripBy isWhite (cs.map plainDigit)) with
  | some x => .ok x
  | none => .error (.number (String.ofList cs))

/-- Sums up sixtieths, the smallest first, rounding at every step. -/
def sumSixtieths : List Binary64 → Binary64 → Nat → Except Meaningless Binary64
  | [], sum, _ => .ok sum
  | part :: rest, sum, unit =>
    match Binary64.ofNat unit with
    | .infinite _ => .error .tooLarge
    | x => sumSixtieths rest (sum + part * x) (60 * unit)

def number (text : String) : Except Meaningless Binary64 := do
  let (negative, r) ← signed (text.toLower).toList
  let x ←
    if r = ".inf".toList then pure (.infinite false)
    else if r = ".nan".toList then pure .nan
    else if ':' ∈ r then
      let parts ← (piecesAt ':' r).mapM decimal
      sumSixtieths parts.reverse .zero 1
    else decimal r
  return if negative then -x else x

/-! ## The other types -/

def truth (text : String) : Except Meaningless Bool :=
  let word := text.toLower
  if word ∈ Plain.trueWords then .ok true
  else if word ∈ Plain.falseWords then .ok false
  else .error (.word word)

/-- Whether the date of a text has a time. -/
def timed (text : String) : Except Meaningless Bool :=
  let cs := text.toList
  match Date.read? (if cs.getLast? = some '\n' then cs.dropLast else cs) with
  | none => .error .undated
  | some d =>
    match d.problem? with
    | some problem => .error (.date problem)
    | none => .ok d.time.isSome

end Meaning

namespace Kind

/-- The value of a scalar's text, if the type is one for scalars. -/
def read (kind : Kind) (text : String) : Except Fault Value :=
  let of := fun {α : Type} (f : α → Value) (a : Except Meaningless α) =>
    (a.map f).mapError Fault.meaningless
  match kind with
  | null => .ok .null
  | .text => .ok (.text text)
  | bool => of .bool (Meaning.truth text)
  | int => of .int (Meaning.whole text)
  | float => of .float (Meaning.number text)
  | date => of .date (Meaning.timed text)
  | bytes =>
    match if text.toList.all (·.toNat < 0x80) then Base64.decode? text.toList else none with
    | some data => .ok (.bytes data)
    | none => .error (.malformed .content)
  | list | set | pairs | mapping => .error (.malformed .content)
  | merge | default | unknown => .error (.malformed .tag)

end Kind

end GaugeConsole.Document
