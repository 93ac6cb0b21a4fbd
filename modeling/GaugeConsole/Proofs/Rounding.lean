import GaugeConsole.Decimal.Shortest
import Mathlib.Tactic.Ring

/-!
# The nearest double of a decimal

Rounding a quotient looks at the ratio only (`Binary64.roundUnits_congr`), so a decimal can be
scaled: `n · 10 ^ k` at one exponent is `n` at an exponent that is greater by `k`
(`Decimal.toBinary64_mul_pow`). That the powers of very large and of very small decimals are not
computed changes nothing (`Decimal.toBinary64_eq`).

The digits that are chosen for a double read back as this double, since it is tried for all of them
but the exact ones, and these are its value (`Binary64.toBinary64_shortest`).
-/

namespace GaugeConsole

theorem roundHalfEven_mul_mul {k : ℕ} (hk : 0 < k) (num den : ℕ) :
    roundHalfEven (num * k) (den * k) = roundHalfEven num den := by
  simp only [roundHalfEven, Nat.mul_div_mul_right _ _ hk, Nat.mul_mod_mul_right, ← Nat.mul_assoc,
    Nat.mul_lt_mul_right hk]

theorem div_le_roundHalfEven (num den : ℕ) : num / den ≤ roundHalfEven num den := by
  simp only [roundHalfEven]
  split_ifs <;> omega

namespace Binary64

variable {num den num' den' : ℕ} {negative : Bool}

theorem limit_eq : limit = 2 ^ 2098 := by
  unfold limit
  generalize 2098 = n
  exact Nat.one_shiftLeft n

theorem one_eq : one = 2 ^ 1074 := by
  unfold one
  generalize 1074 = n
  exact Nat.one_shiftLeft n

theorem one_pos : 0 < one := by
  rw [one_eq]
  generalize 1074 = n
  exact Nat.two_pow_pos n

theorem roundUnits_mul_mul {k : ℕ} (hk : 0 < k) (num den : ℕ) :
    roundUnits (num * k) (den * k) = roundUnits num den := by
  simp only [roundUnits, Nat.mul_div_mul_right _ _ hk, Nat.mul_right_comm den k,
    roundHalfEven_mul_mul hk]

theorem roundUnits_congr (hden : 0 < den) (hden' : 0 < den') (h : num * den' = num' * den) :
    roundUnits num den = roundUnits num' den' := by
  rw [← roundUnits_mul_mul hden', h, Nat.mul_comm den, roundUnits_mul_mul hden]

/-- Rounding does not go below a power of two. -/
theorem two_pow_le_roundUnits {n : ℕ} (h : 2 ^ n ≤ num / den) : 2 ^ n ≤ roundUnits num den := by
  have hne : num / den ≠ 0 := ((Nat.two_pow_pos n).trans_le h).ne'
  have hlog : n ≤ (num / den).log2 := (Nat.le_log2 hne).2 h
  have hpow : 2 ^ (num / den).log2 ≤ num / den := Nat.log2_self_le hne
  have hdvd : 2 ^ grain (num / den) ∣ 2 ^ (num / den).log2 := Nat.pow_dvd_pow 2 (Nat.sub_le _ _)
  calc 2 ^ n ≤ 2 ^ (num / den).log2 := Nat.pow_le_pow_right (by decide) hlog
    _ = 2 ^ (num / den).log2 / 2 ^ grain (num / den) * 2 ^ grain (num / den) :=
      (Nat.div_mul_cancel hdvd).symm
    _ ≤ num / den / 2 ^ grain (num / den) * 2 ^ grain (num / den) :=
      Nat.mul_le_mul_right _ (Nat.div_le_div_right hpow)
    _ ≤ roundUnits num den := by
      rw [roundUnits, Nat.one_shiftLeft, Nat.div_div_eq_div_mul]
      exact Nat.mul_le_mul_right _ (div_le_roundHalfEven _ _)

/-- What is less than a half of the smallest unit is nothing. -/
theorem roundUnits_eq_zero (h : 2 * num < den) : roundUnits num den = 0 := by
  have hdiv : num / den = 0 := Nat.div_eq_of_lt (by omega)
  have hmod : num % den = num := Nat.mod_eq_of_lt (by omega)
  simp [roundUnits, grain, roundHalfEven, hdiv, hmod, h]

theorem ofUnits_congr_round (h : roundUnits num den = roundUnits num' den') :
    ofUnits negative num den = ofUnits negative num' den' := by
  simp only [ofUnits, h]

theorem ofUnits_congr (hden : 0 < den) (hden' : 0 < den') (h : num * den' = num' * den) :
    ofUnits negative num den = ofUnits negative num' den' :=
  ofUnits_congr_round (roundUnits_congr hden hden' h)

theorem ofUnits_of_limit_le (h : limit ≤ num / den) :
    ofUnits negative num den = .infinite negative := by
  refine dif_neg (Nat.not_lt.2 ?_)
  rw [limit_eq] at h ⊢
  exact two_pow_le_roundUnits h

theorem ofUnits_eq_finite_iff {s : Bool} {u : ℕ} {h : u < limit} {p : Precise u} :
    ofUnits negative num den = .finite s u h p ↔ negative = s ∧ roundUnits num den = u := by
  unfold ofUnits
  split_ifs with hlimit
  · simp
  · refine iff_of_false (fun hne => nomatch hne) ?_
    rintro ⟨-, rfl⟩
    exact hlimit h

theorem ofUnits_precise {u : ℕ} (h : u < limit) (p : Precise u) :
    ofUnits negative u 1 = .finite negative u h p :=
  ofUnits_eq_finite_iff.2 ⟨rfl, roundUnits_of_precise p⟩

theorem ofUnits_ne_nan : ofUnits negative num den ≠ .nan := by
  unfold ofUnits
  split_ifs <;> exact nofun

end Binary64

namespace Decimal

open Binary64

theorem two_pow_le_ten_pow (k : ℕ) : 2 ^ (3 * k) ≤ 10 ^ k := by
  rw [Nat.pow_mul]
  exact Nat.pow_le_pow_left (by decide) k

/-- What a decimal is in units, without a look at how large it is. -/
theorem toBinary64_eq (d : Decimal) (negative : Bool) :
    d.toBinary64 negative = .ofUnits negative (d.digits * 10 ^ d.exponent.toNat * one)
      (10 ^ (-d.exponent).toNat) := by
  have hzero : ∀ num den, roundUnits num den = 0 →
      ofUnits negative 0 1 = ofUnits negative num den := fun num den h =>
    ofUnits_congr_round ((roundUnits_eq_zero (by decide)).trans h.symm)
  obtain ⟨n, e⟩ := d
  unfold toBinary64
  dsimp only
  split_ifs with hn hlarge hsmall
  · rw [hn, Nat.zero_mul, Nat.zero_mul]
    exact hzero _ _ (roundUnits_eq_zero (Nat.pow_pos (by decide)))
  -- more than the largest double
  · refine (ofUnits_of_limit_le ?_).symm
    have hden : (-e).toNat = 0 := by omega
    have hexponent : 1024 ≤ 3 * e.toNat := by omega
    have hpow : 2 ^ 1024 ≤ 10 ^ e.toNat :=
      le_trans (by gcongr; decide) (two_pow_le_ten_pow e.toNat)
    calc limit = 1 * 2 ^ 1024 * one := by rw [limit_eq, one_eq, Nat.one_mul, ← Nat.pow_add]
      _ ≤ n * 10 ^ e.toNat * one :=
        Nat.mul_le_mul_right _ (Nat.mul_le_mul (Nat.pos_of_ne_zero hn) hpow)
      _ = n * 10 ^ e.toNat * one / 10 ^ (-e).toNat := by rw [hden, Nat.pow_zero, Nat.div_one]
  -- less than half of the smallest one
  · refine hzero _ _ (roundUnits_eq_zero ?_)
    have hnum : e.toNat = 0 := by omega
    have hlog : n < 2 ^ (n.log2 + 1) := Nat.lt_log2_self
    obtain ⟨k, hone, hk⟩ : ∃ k, one = 2 ^ k ∧ k = 1074 := ⟨_, one_eq, rfl⟩
    calc 2 * (n * 10 ^ e.toNat * one) = n * 2 ^ (k + 1) := by
          rw [hnum, Nat.pow_zero, Nat.mul_one, hone, Nat.mul_left_comm, Nat.pow_succ']
      _ < 2 ^ (n.log2 + 1) * 2 ^ (k + 1) := Nat.mul_lt_mul_of_pos_right hlog (Nat.two_pow_pos _)
      _ = 2 ^ (n.log2 + 1 + (k + 1)) := (Nat.pow_add 2 _ _).symm
      _ ≤ 2 ^ (3 * (-e).toNat) := Nat.pow_le_pow_right (by decide) (by omega)
      _ ≤ 10 ^ (-e).toNat := two_pow_le_ten_pow _
  · rfl

theorem toBinary64_mul_pow (n k : ℕ) (e : ℤ) (negative : Bool) :
    (⟨n * 10 ^ k, e⟩ : Decimal).toBinary64 negative
      = (⟨n, e + k⟩ : Decimal).toBinary64 negative := by
  rw [toBinary64_eq, toBinary64_eq]
  refine ofUnits_congr (Nat.pow_pos (by decide)) (Nat.pow_pos (by decide)) ?_
  dsimp only
  have hexponents : k + e.toNat + (-(e + k)).toNat = (e + k).toNat + (-e).toNat := by omega
  calc n * 10 ^ k * 10 ^ e.toNat * one * 10 ^ (-(e + k)).toNat
      = n * one * 10 ^ (k + e.toNat + (-(e + k)).toNat) := by ring
    _ = n * one * 10 ^ ((e + k).toNat + (-e).toNat) := by rw [hexponents]
    _ = n * 10 ^ (e + k).toNat * one * 10 ^ (-e).toNat := by ring

theorem toBinary64_ne_nan (d : Decimal) (negative : Bool) : d.toBinary64 negative ≠ .nan := by
  rw [toBinary64_eq]
  exact ofUnits_ne_nan

/-- The sign of a decimal becomes that of the double. -/
theorem toBinary64_signed {d : Decimal} {u : ℕ} {h : u < limit} {p : Precise u}
    (hd : d.toBinary64 false = .finite false u h p) (negative : Bool) :
    d.toBinary64 negative = .finite negative u h p := by
  rw [toBinary64_eq, ofUnits_eq_finite_iff] at hd ⊢
  exact ⟨rfl, hd.2⟩

end Decimal

namespace Binary64

theorem toBinary64_exact (u : ℕ) (negative : Bool) :
    (⟨u * Nat.pow 5 1074, -1074⟩ : Decimal).toBinary64 negative = ofUnits negative u 1 := by
  rw [Decimal.toBinary64_eq]
  have hnum : (-1074 : ℤ).toNat = 0 := rfl
  have hden : (-(-1074 : ℤ)).toNat = 1074 := rfl
  rw [hnum, hden, one_eq]
  generalize 1074 = n
  refine ofUnits_congr (Nat.pow_pos (by decide)) Nat.one_pos ?_
  rw [Nat.pow_zero, Nat.mul_one, Nat.mul_one, Nat.mul_assoc, Nat.pow_eq, ← Nat.mul_pow]

theorem toBinary64_shortest (u : ℕ) : (shortest u).toBinary64 false = ofUnits false u 1 := by
  unfold shortest
  dsimp only
  rcases hfound : (List.range 17).findSome? _ with _ | d
  · simpa only [Option.getD_none] using toBinary64_exact u false
  · obtain ⟨n, -, hn⟩ := List.exists_of_findSome?_eq_some hfound
    simpa only [Option.getD_some, decide_eq_true_eq] using List.find?_some hn

end Binary64

end GaugeConsole
