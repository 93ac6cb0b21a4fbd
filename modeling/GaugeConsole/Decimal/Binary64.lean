/-!
# Double-precision numbers

A finite double is a sign and a whole number of units of 2⁻¹⁰⁷⁴, of which at most the top 53 bits
are in use. In these units sums and comparisons are those of whole numbers, and there is one
rounding: of a quotient to the nearest representable count, a half going to the even neighbour
(`roundUnits`). That its result is representable is `roundUnits_precise`.
-/

namespace GaugeConsole

/-- The quotient rounded to the nearest whole number, a half going to the even neighbour. -/
def roundHalfEven (num den : Nat) : Nat :=
  let q := num / den
  let twice := 2 * (num % den)
  if twice < den then q
  else if den < twice then q + 1
  else if q % 2 = 0 then q else q + 1

theorem roundHalfEven_le (num den : Nat) : roundHalfEven num den ≤ num / den + 1 := by
  simp only [roundHalfEven]
  repeat' split
  all_goals omega

theorem roundHalfEven_mul (q : Nat) {den : Nat} (h : 0 < den) :
    roundHalfEven (q * den) den = q := by
  simp [roundHalfEven, Nat.mul_div_cancel q h, h]

namespace Binary64

/-- Finite magnitudes are below this many units, which is 2¹⁰²⁴. -/
def limit : Nat := 1 <<< 2098

/-- The numbers of units near `n` lie `1 <<< grain n` apart. -/
def grain (n : Nat) : Nat := n.log2 - 52

/-- The whole numbers that a double can hold: at most 53 significant bits. -/
def Precise (n : Nat) : Prop := 1 <<< grain n ∣ n

instance (n : Nat) : Decidable (Precise n) := inferInstanceAs (Decidable (_ ∣ _))

/-- The representable number of units nearest to a quotient, a half going to the even one. -/
def roundUnits (num den : Nat) : Nat :=
  let spacing := 1 <<< grain (num / den)
  roundHalfEven num (den * spacing) * spacing

theorem div_mul_lt (num den : Nat) :
    num / (den * (1 <<< grain (num / den))) < 1 <<< 53 := by
  simp only [Nat.one_shiftLeft]
  rw [← Nat.div_div_eq_div_mul]
  have h : num / den < 2 ^ (grain (num / den) + 53) := by
    refine Nat.lt_of_lt_of_le Nat.lt_log2_self (Nat.pow_le_pow_right (by omega) ?_)
    unfold grain
    omega
  rw [Nat.pow_add, Nat.mul_comm] at h
  exact Nat.div_lt_of_lt_mul (by rwa [Nat.mul_comm] at h)

theorem precise_mul {q g : Nat} (h : q ≤ 1 <<< 53) : Precise (q * (1 <<< g)) := by
  unfold Precise
  simp only [Nat.one_shiftLeft] at h ⊢
  rcases Nat.eq_zero_or_pos q with rfl | hq
  · simp
  · have hne : q * 2 ^ g ≠ 0 := Nat.mul_ne_zero (by omega) (by simp)
    rcases Nat.lt_or_eq_of_le h with hlt | rfl
    · refine Nat.dvd_trans (Nat.pow_dvd_pow 2 ?_) (Nat.dvd_mul_left _ _)
      have : (q * 2 ^ g).log2 < 53 + g := by
        rw [Nat.log2_lt hne, Nat.pow_add]
        exact Nat.mul_lt_mul_of_pos_right hlt (Nat.two_pow_pos g)
      unfold grain
      omega
    · rw [← Nat.pow_add]
      refine Nat.pow_dvd_pow 2 ?_
      unfold grain
      rw [Nat.log2_two_pow]
      omega

theorem roundUnits_precise (num den : Nat) : Precise (roundUnits num den) := by
  refine precise_mul (Nat.le_trans (roundHalfEven_le _ _) ?_)
  have := div_mul_lt num den
  omega

/-- A representable number of units is its own rounding. -/
theorem roundUnits_of_precise {n : Nat} (h : Precise n) : roundUnits n 1 = n := by
  obtain ⟨q, hq⟩ := h
  simp only [roundUnits, Nat.div_one, Nat.one_mul]
  generalize hs : 1 <<< grain n = s at hq
  have hpos : 0 < s := by
    rw [← hs, Nat.one_shiftLeft]
    exact Nat.two_pow_pos _
  rw [hq, Nat.mul_comm s q, roundHalfEven_mul q hpos]

end Binary64

/-- A double: a finite magnitude in units of 2⁻¹⁰⁷⁴ with a sign, so that the two zeros differ, an
infinity, or the one value that is not a number. -/
inductive Binary64 where
  | finite (negative : Bool) (units : Nat) (below : units < Binary64.limit)
      (precise : Binary64.Precise units)
  | infinite (negative : Bool)
  | nan
deriving DecidableEq

namespace Binary64

/-- The double nearest to a quotient of units; beyond the finite range it is infinite. -/
def ofUnits (negative : Bool) (num den : Nat) : Binary64 :=
  if h : roundUnits num den < limit then
    .finite negative (roundUnits num den) h (roundUnits_precise num den)
  else .infinite negative

/-- How many units make one. -/
def one : Nat := 1 <<< 1074

def zero : Binary64 := ofUnits false 0 1

instance : Inhabited Binary64 := ⟨zero⟩

def ofNat (n : Nat) : Binary64 := ofUnits false (n * one) 1

def ofInt (n : Int) : Binary64 := ofUnits (n < 0) (n.natAbs * one) 1

/-- The double with the given 64-bit interchange encoding. -/
def ofBits (bits : Nat) : Binary64 :=
  let negative := (bits >>> 63) % 2 == 1
  let exponent := (bits >>> 52) % 2048
  let fraction := bits % (1 <<< 52)
  if exponent = 2047 then if fraction = 0 then .infinite negative else .nan
  else if exponent = 0 then ofUnits negative fraction 1
  else ofUnits negative (((1 <<< 52) + fraction) <<< (exponent - 1)) 1

def signed (negative : Bool) (units : Nat) : Int := if negative then -units else units

def neg : Binary64 → Binary64
  | .finite s u h p => .finite (!s) u h p
  | .infinite s => .infinite (!s)
  | .nan => .nan

/-- The rounded sum. A sum of zero is negative only if both terms are. -/
def add : Binary64 → Binary64 → Binary64
  | .finite s u _ _, .finite t v _ _ =>
    let sum := signed s u + signed t v
    if sum = 0 then ofUnits (s && t) 0 1 else ofUnits (sum < 0) sum.natAbs 1
  | .infinite s, .infinite t => if s = t then .infinite s else .nan
  | .infinite s, .finite .. => .infinite s
  | .finite .., .infinite t => .infinite t
  | .nan, _ => .nan
  | _, .nan => .nan

def sub (x y : Binary64) : Binary64 := add x (neg y)

def mul : Binary64 → Binary64 → Binary64
  | .finite s u _ _, .finite t v _ _ => ofUnits (s != t) (u * v) one
  | .infinite s, .infinite t => .infinite (s != t)
  | .infinite s, .finite t v _ _ => if v = 0 then .nan else .infinite (s != t)
  | .finite s u _ _, .infinite t => if u = 0 then .nan else .infinite (s != t)
  | .nan, _ => .nan
  | _, .nan => .nan

instance : Neg Binary64 := ⟨neg⟩
instance : Add Binary64 := ⟨add⟩
instance : Sub Binary64 := ⟨sub⟩
instance : Mul Binary64 := ⟨mul⟩

/-- Numerical order; nothing is below or above the value that is not a number. -/
def lt : Binary64 → Binary64 → Bool
  | .finite s u _ _, .finite t v _ _ => signed s u < signed t v
  | .infinite s, .infinite t => s && !t
  | .infinite s, .finite .. => s
  | .finite .., .infinite t => !t
  | .nan, _ => false
  | _, .nan => false

/-- At most, numerically: the two zeros are equal. -/
def le : Binary64 → Binary64 → Bool
  | .nan, _ => false
  | _, .nan => false
  | x, y => !lt y x

/-- The whole number that a double is, if it is one. -/
def toInt? : Binary64 → Option Int
  | .finite s u _ _ => if u % one = 0 then some (signed s (u / one)) else none
  | _ => none

end Binary64

end GaugeConsole
