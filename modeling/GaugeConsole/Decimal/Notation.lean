import GaugeConsole.Decimal.Shortest

/-!
# Number texts

The shortest digits of a double are laid out in one of two ways: positionally, with at least one
digit after the point, or with one digit before the point and a signed power of ten of at least
two digits. A number is positional from 10⁻⁴ on and below 10¹⁶.
-/

namespace GaugeConsole

/-- Significant digits, and the place of the decimal point counted from the first of them. -/
structure Layout where
  digits : List Char
  point : Int

namespace Layout

/-- Leaves out the zeros at the end of a row of digits. -/
def trim (ds : List Char) : List Char := (ds.reverse.dropWhile (· = '0')).reverse

def ofDecimal (d : Decimal) : Layout :=
  let ds := natDigits d.digits
  ⟨trim ds, ds.length + d.exponent⟩

/-- Digits around the point, with zeros where digits are missing on either side of it. -/
def positional (l : Layout) : List Char :=
  if l.point ≤ 0 then
    '0' :: '.' :: List.replicate (-l.point).toNat '0' ++ l.digits
  else
    let before := l.point.toNat
    let whole := l.digits.take before
    let fraction := l.digits.drop before
    whole ++ List.replicate (before - whole.length) '0' ++
      '.' :: (if fraction = [] then ['0'] else fraction)

/-- The power of ten of the first digit, signed and with at least two digits. -/
def power (l : Layout) : List Char :=
  let e := l.point - 1
  let ds := natDigits e.natAbs
  'e' :: (if e < 0 then '-' else '+') :: (if ds.length < 2 then '0' :: ds else ds)

/-- One digit, the rest of them after a point, and the power of ten. -/
def scientific (l : Layout) : List Char :=
  match l.digits with
  | [] => '0' :: l.power
  | [d] => d :: l.power
  | d :: ds => d :: '.' :: ds ++ l.power

def isPositional (l : Layout) : Bool := -4 < l.point && l.point ≤ 16

def text (l : Layout) : List Char := if l.isPositional then l.positional else l.scientific

end Layout

namespace Binary64

/-- The layout of a magnitude, in which zero has a single digit. -/
def layout (units : Nat) : Layout :=
  if units = 0 then ⟨['0'], 1⟩ else .ofDecimal (shortest units)

/-- The text that identifies a double. -/
def toChars : Binary64 → List Char
  | .finite s u _ _ => (if s then ['-'] else []) ++ (layout u).text
  | .infinite s => if s then "-inf".toList else "inf".toList
  | .nan => "nan".toList

def toText (x : Binary64) : String := String.ofList x.toChars

/-- Whole numbers beyond this have neighbours that are not doubles. -/
def maxExact : Nat := 1 <<< 53

/-- The text shown to the operator: a whole number up to `maxExact` stands without a fraction. -/
def concise (x : Binary64) : String :=
  match x.toInt? with
  | some n => if n.natAbs ≤ maxExact then intText n else x.toText
  | none => x.toText

/-- The text with a fixed number of decimal places, rounded from the exact value with a half going
to the even neighbour. -/
def fixed (places : Nat) : Binary64 → String
  | .finite s u _ _ =>
    let ds := natDigits (roundHalfEven (u * Nat.pow 10 places) one)
    let ds := List.replicate (places + 1 - ds.length) '0' ++ ds
    let before := ds.length - places
    String.ofList ((if s then ['-'] else []) ++ ds.take before ++ '.' :: ds.drop before)
  | x => x.toText

end Binary64

end GaugeConsole
