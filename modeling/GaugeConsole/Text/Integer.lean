import GaugeConsole.Text.Blank
import GaugeConsole.Text.Digit
import GaugeConsole.Text.Numeral

/-!
# Whole numbers as they are written

A whole number may have white space around it, a sign, and single underscores between its digits,
which may be of any script. A number of more than 4300 digits is not read.
-/

namespace GaugeConsole

namespace Integer

/-- The values of digits that have at most one underscore between them; an underscore has to stand
between two digits. -/
def digits? : List Char → Option (List Nat)
  | [] => none
  | [c] => (digitValue? c).map ([·])
  | c :: '_' :: r => do return (← digitValue? c) :: (← digits? r)
  | c :: r => do return (← digitValue? c) :: (← digits? r)

def ofDigitValues (ds : List Nat) : Nat := ds.foldl (fun n d => 10 * n + d) 0

/-- The number of digits beyond which a text is not taken for a number. -/
def maxDigits : Nat := 4300

/-- The whole number of a text. The information separators do not count as white space here. -/
def read? (s : List Char) : Option Int := do
  let (negative, r) := takeSign (stripBy isWhite s)
  let ds ← digits? r
  if maxDigits < ds.length then none
  else return if negative then -ofDigitValues ds else ofDigitValues ds

end Integer

end GaugeConsole
