import GaugeConsole.Decimal.Literal

/-!
# The fewest digits that identify a double

A double is written with the fewest significant digits that read back as that double, and among
the numbers of so many digits with the nearest. Every finite double is a whole multiple of
10⁻¹⁰⁷⁴, since 2⁻¹⁰⁷⁴ is 5¹⁰⁷⁴ · 10⁻¹⁰⁷⁴, so its neighbours on any decimal grid come from one
division.
-/

namespace GaugeConsole

namespace Binary64

/-- Of the two neighbours of `exact` that are multiples of `10 ^ cut`, the nearer comes first; of
two equally near, the one with the even last digit. -/
def neighbours (exact cut : Nat) : List Nat :=
  let step := Nat.pow 10 cut
  let low := exact / step
  let twice := 2 * (exact % step)
  if twice < step ∨ (twice = step ∧ low % 2 = 0) then [low, low + 1] else [low + 1, low]

/-- The nearest decimal on the grid of `10 ^ (cut - 1074)` that reads back as `x`. -/
def onGrid? (x : Binary64) (exact cut : Nat) : Option Decimal :=
  ((neighbours exact cut).map fun n => (⟨n, (cut : Int) - 1074⟩ : Decimal)).find? fun d =>
    d.toBinary64 false = x

/-- The decimal with the fewest digits that reads back as a magnitude of so many units, sought
from one digit up to seventeen; the exact value stands ready should none of them do. -/
def shortest (units : Nat) : Decimal :=
  let exact := units * Nat.pow 5 1074
  let length := (natDigits exact).length
  let found := (List.range 17).findSome? fun n =>
    onGrid? (ofUnits false units 1) exact (length - (n + 1))
  found.getD ⟨exact, -1074⟩

end Binary64

end GaugeConsole
