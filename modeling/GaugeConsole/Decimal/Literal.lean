import GaugeConsole.Decimal.Binary64
import GaugeConsole.Text.Numeral

/-!
# Numbers as they are written

A literal is an optional sign, decimal digits with at most one point among or around them, and an
optional power of ten. Its value is the double nearest to the number written. Only the ten ASCII
digits count.
-/

namespace GaugeConsole

/-- The number `digits · 10 ^ exponent`. -/
structure Decimal where
  digits : Nat
  exponent : Int
deriving DecidableEq

namespace Decimal

/-- The nearest double. A number of 10⁴⁰⁰ or more is beyond every finite double, and one below
10⁻⁴⁰⁰ is nearer to zero than to any other, so that no larger power of ten is ever computed. -/
def toBinary64 (d : Decimal) (negative : Bool) : Binary64 :=
  if d.digits = 0 then .ofUnits negative 0 1
  else if 400 < d.exponent then .infinite negative
  else if d.exponent + d.digits.log2 + 1 < -400 then .ofUnits negative 0 1
  else .ofUnits negative (d.digits * Nat.pow 10 d.exponent.toNat * Binary64.one)
    (Nat.pow 10 (-d.exponent).toNat)

end Decimal

structure Literal where
  negative : Bool
  whole : List Char
  fraction : List Char
  exponent : Int
deriving DecidableEq

namespace Literal

def toDecimal (l : Literal) : Decimal :=
  ⟨ofDigits (l.whole ++ l.fraction), l.exponent - l.fraction.length⟩

def value (l : Literal) : Binary64 := l.toDecimal.toBinary64 l.negative

/-- The digits before and after the point, of which there is at least one. -/
def mantissa? (s : List Char) : Option (List Char × List Char × List Char) :=
  let whole := s.takeWhile isDigit
  match s.dropWhile isDigit with
  | '.' :: r =>
    let fraction := r.takeWhile isDigit
    if whole = [] ∧ fraction = [] then none else some (whole, fraction, r.dropWhile isDigit)
  | r => if whole = [] then none else some (whole, [], r)

/-- The power of ten. A mark that no digit follows is not part of the number. -/
def power (s : List Char) : Int × List Char :=
  match s with
  | [] => (0, [])
  | c :: r =>
    if c = 'e' ∨ c = 'E' then
      let (negative, r) := takeSign r
      let digits := r.takeWhile isDigit
      if digits = [] then (0, s)
      else (if negative then -ofDigits digits else ofDigits digits, r.dropWhile isDigit)
    else (0, s)

/-- The longest literal that a text begins with, and the text after it. -/
def read? (s : List Char) : Option (Literal × List Char) :=
  let (negative, r) := takeSign s
  match mantissa? r with
  | none => none
  | some (whole, fraction, r) =>
    let (exponent, r) := power r
    some (⟨negative, whole, fraction, exponent⟩, r)

/-- The value of a text that is one literal and nothing else. -/
def value? (s : List Char) : Option Binary64 :=
  match read? s with
  | some (l, []) => some l.value
  | _ => none

/-- The value of a text for a number that no digits can write. -/
def special? (s : List Char) : Option Binary64 :=
  let (negative, r) := takeSign s
  let word := (String.ofList r).toLower
  if word = "inf" || word = "infinity" then some (.infinite negative)
  else if word = "nan" then some .nan
  else none

/-- The value of a text that is a literal or the name of a number. -/
def number? (s : List Char) : Option Binary64 := (value? s).or (special? s)

end Literal

end GaugeConsole
