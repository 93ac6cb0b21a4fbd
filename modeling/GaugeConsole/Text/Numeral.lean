/-!
# Numerals

Rows of decimal digits and the whole numbers that they stand for.
-/

namespace GaugeConsole

def isDigit (c : Char) : Bool := '0' ≤ c && c ≤ '9'

/-- The number that a row of ASCII digits stands for. -/
def ofDigits (ds : List Char) : Nat := ds.foldl (fun n c => 10 * n + (c.toNat - '0'.toNat)) 0

def natDigits (n : Nat) : List Char := Nat.toDigits 10 n

def intText (n : Int) : String :=
  let ds := natDigits n.natAbs
  String.ofList (if n < 0 then '-' :: ds else ds)

/-- The hexadecimal digits of a number, at least `width` of them. -/
def hexDigits (width n : Nat) : List Char :=
  let ds := Nat.toDigits 16 n
  List.replicate (width - ds.length) '0' ++ ds

def hexValue? (c : Char) : Option Nat :=
  if '0' ≤ c ∧ c ≤ '9' then some (c.toNat - '0'.toNat)
  else if 'a' ≤ c ∧ c ≤ 'f' then some (c.toNat - 'a'.toNat + 10)
  else if 'A' ≤ c ∧ c ≤ 'F' then some (c.toNat - 'A'.toNat + 10)
  else none

/-- The number that a row of hexadecimal digits stands for. -/
def ofHexDigits? (ds : List Char) : Option Nat :=
  ds.foldlM (fun n c => (hexValue? c).map (16 * n + ·)) 0

/-- Whether a sign says minus, and what follows it. -/
def takeSign : List Char → Bool × List Char
  | '-' :: r => (true, r)
  | '+' :: r => (false, r)
  | r => (false, r)

end GaugeConsole
