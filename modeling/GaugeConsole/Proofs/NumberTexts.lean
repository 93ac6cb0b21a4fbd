import GaugeConsole.Decimal.Notation
import GaugeConsole.Proofs.Numerals
import GaugeConsole.Proofs.Rounding

/-!
# What is shown of a double

The text of a finite double is a numeral, and it reads back as that double, but for the sign of zero
(`Binary64.numeral_concise`). It is a row of digits with a sign or without if it stands for a whole
number of which all smaller ones are doubles too; any other has a point in it or a power of ten
(`Binary64.whole_concise_iff`).

A layout is a decimal whose digits may be moved around the point: zeros that fill a gap at either
side go into the exponent.
-/

namespace GaugeConsole

open Grammar

section Digits

variable {a b : List Char} {n : ℕ}

theorem ofDigits_append : ofDigits (a ++ b) = ofDigits a * 10 ^ b.length + ofDigits b := by
  change Nat.ofDigitChars 10 (a ++ b) 0 = _
  rw [Nat.ofDigitChars_append, Nat.ofDigitChars_eq_ofDigitChars_zero, Nat.mul_comm]
  rfl

theorem ofDigits_replicate_zero : ofDigits (List.replicate n '0') = 0 :=
  Nat.ofDigitChars_replicate_zero

theorem ofDigits_append_zeros : ofDigits (a ++ List.replicate n '0') = ofDigits a * 10 ^ n := by
  rw [ofDigits_append, ofDigits_replicate_zero, List.length_replicate, Nat.add_zero]

theorem ofDigits_zeros_append : ofDigits (List.replicate n '0' ++ a) = ofDigits a := by
  rw [ofDigits_append, ofDigits_replicate_zero, Nat.zero_mul, Nat.zero_add]

theorem ofDigits_zero_cons : ofDigits ('0' :: a) = ofDigits a :=
  ofDigits_zeros_append (n := 1)

theorem ofDigits_natDigits : ofDigits (natDigits n) = n := Nat.ofDigitChars_ten_toDigits

theorem digits_natDigits : Digits (natDigits n) :=
  digits_iff.2 fun c hc => by
    have h := Nat.isDigit_of_mem_toDigits (by decide) (by decide) hc
    simpa [isDigit, Char.isDigit, Char.le_def] using h

theorem natDigits_ne_nil : natDigits n ≠ [] := Nat.toDigits_ne_nil

theorem digits_replicate_zero : Digits (List.replicate n '0') := by
  intro c hc
  rw [List.eq_of_mem_replicate hc]
  decide

theorem digits_append (ha : Digits a) (hb : Digits b) : Digits (a ++ b) :=
  List.forall_mem_append.2 ⟨ha, hb⟩

end Digits

namespace Layout

theorem exists_trim (ds : List Char) : ∃ z, ds = trim ds ++ List.replicate z '0' := by
  have hzeros : ds.reverse.takeWhile (· = '0')
      = List.replicate (ds.reverse.takeWhile (· = '0')).length '0' :=
    List.eq_replicate_of_mem fun c hc => by simpa using List.mem_takeWhile_imp hc
  refine ⟨(ds.reverse.takeWhile (· = '0')).length, ?_⟩
  calc ds = (ds.reverse.takeWhile (· = '0') ++ ds.reverse.dropWhile (· = '0')).reverse := by
        rw [List.takeWhile_append_dropWhile, List.reverse_reverse]
    _ = trim ds ++ (ds.reverse.takeWhile (· = '0')).reverse := List.reverse_append
    _ = _ := by rw [hzeros, List.reverse_replicate, List.length_replicate]

/-- A layout that shows a digit. -/
structure Proper (l : Layout) : Prop where
  digits : Digits l.digits
  ne_nil : l.digits ≠ []

/-- The decimal that is laid out. -/
def toDecimal (l : Layout) : Decimal := ⟨ofDigits l.digits, l.point - l.digits.length⟩

theorem proper_ofDecimal {d : Decimal} (h : d.digits ≠ 0) : (ofDecimal d).Proper := by
  obtain ⟨z, hz⟩ := exists_trim (natDigits d.digits)
  refine ⟨fun c hc => digits_natDigits c (hz ▸ List.mem_append_left _ hc), fun hnil => h ?_⟩
  change trim (natDigits d.digits) = [] at hnil
  rw [hnil, List.nil_append] at hz
  rw [← ofDigits_natDigits (n := d.digits), hz, ofDigits_replicate_zero]

/-- The zeros at the end of a row of digits go into the exponent. -/
theorem toBinary64_ofDecimal (d : Decimal) (negative : Bool) :
    (ofDecimal d).toDecimal.toBinary64 negative = d.toBinary64 negative := by
  obtain ⟨n, e⟩ := d
  obtain ⟨z, hz⟩ := exists_trim (natDigits n)
  have hn : n = ofDigits (trim (natDigits n)) * 10 ^ z := by
    have h := congrArg ofDigits hz
    rwa [ofDigits_natDigits, ofDigits_append_zeros] at h
  have hlength := congrArg List.length hz
  rw [List.length_append, List.length_replicate] at hlength
  have he : ((natDigits n).length + e - (trim (natDigits n)).length : ℤ) = e + z := by omega
  calc (ofDecimal ⟨n, e⟩).toDecimal.toBinary64 negative
      = (⟨ofDigits (trim (natDigits n)), e + z⟩ : Decimal).toBinary64 negative := by
        rw [toDecimal, ofDecimal, he]
    _ = (⟨n, e⟩ : Decimal).toBinary64 negative := by
        rw [← Decimal.toBinary64_mul_pow, ← hn]

variable {l : Layout}

theorem power_power : Power l.power (l.point - 1) := by
  have hpadded : ∀ ds : List Char, Digits ds → ds ≠ [] → ∃ ds',
      (if ds.length < 2 then '0' :: ds else ds) = ds' ∧ Digits ds' ∧ ds' ≠ []
        ∧ ofDigits ds' = ofDigits ds := fun ds hds hne => by
    split_ifs
    · exact ⟨_, rfl, digits_append (a := ['0']) (by simp [Digits]) hds, List.cons_ne_nil _ _,
        ofDigits_zero_cons⟩
    · exact ⟨ds, rfl, hds, hne, rfl⟩
  obtain ⟨ds, hds, hdigits, hne, hvalue⟩ :=
    hpadded (natDigits (l.point - 1).natAbs) digits_natDigits natDigits_ne_nil
  rw [ofDigits_natDigits] at hvalue
  have he : 'e' = 'e' ∨ 'e' = 'E' := .inl rfl
  unfold power
  dsimp only
  rw [hds]
  split_ifs with hneg
  · have hmark := Power.mark he .minus hdigits hne
    rwa [if_pos rfl, hvalue, Int.ofNat_natAbs_of_nonpos hneg.le, Int.neg_neg] at hmark
  · have hmark := Power.mark he .plus hdigits hne
    rwa [if_neg Bool.false_ne_true, hvalue, Int.natAbs_of_nonneg (Int.not_lt.1 hneg)] at hmark

theorem positional_mantissa (h : l.Proper) :
    ∃ w f, Mantissa l.positional w f
      ∧ ∀ negative, (⟨negative, w, f, 0⟩ : Literal).value = l.toDecimal.toBinary64 negative := by
  obtain ⟨digits, point⟩ := l
  obtain ⟨hdigits, hne⟩ := h
  simp only [Literal.value, Literal.toDecimal, toDecimal, positional] at *
  split_ifs with hpoint
  -- the point is in front of all digits
  · refine ⟨['0'], List.replicate (-point).toNat '0' ++ digits, ?_, fun negative => ?_⟩
    · exact .point (d := ['0']) (by simp [Digits]) (by simp)
        (digits_append digits_replicate_zero hdigits)
    · have hexponent : (0 - (List.replicate (-point).toNat '0' ++ digits).length : ℤ)
          = point - digits.length := by
        rw [List.length_append, List.length_replicate]
        omega
      rw [hexponent, List.singleton_append, ofDigits_zero_cons, ofDigits_zeros_append]
  -- it is behind all of them
  · rename_i hdrop
    have hlength := List.drop_eq_nil_iff.1 hdrop
    obtain ⟨z, hz⟩ := Nat.exists_eq_add_of_le hlength
    rw [List.take_of_length_le hlength, hz, Nat.add_sub_cancel_left]
    refine ⟨digits ++ List.replicate z '0', ['0'], .point (digits_append hdigits
      digits_replicate_zero) (List.append_ne_nil_of_left_ne_nil hne _) (by simp [Digits]),
      fun negative => ?_⟩
    have hvalue : ofDigits (digits ++ List.replicate z '0' ++ ['0'])
        = ofDigits digits * 10 ^ (z + 1) := by
      rw [List.append_assoc, ← List.replicate_succ', ofDigits_append_zeros]
    have hexponent :
        (0 - (['0'] : List Char).length + (z + 1 : ℕ) : ℤ) = point - digits.length := by
      rw [List.length_singleton]
      omega
    rw [hvalue, Decimal.toBinary64_mul_pow, hexponent]
  -- it is among them
  · rename_i hdrop
    have hlength := Nat.lt_of_not_le (List.drop_eq_nil_iff.not.1 hdrop)
    have htake : (digits.take point.toNat).length = point.toNat :=
      List.length_take_of_le hlength.le
    rw [htake, Nat.sub_self, List.replicate_zero, List.append_nil]
    refine ⟨digits.take point.toNat, digits.drop point.toNat, .point
      (fun c hc => hdigits c (List.mem_of_mem_take hc)) (List.ne_nil_of_length_pos (by omega))
      (fun c hc => hdigits c (List.mem_of_mem_drop hc)), fun negative => ?_⟩
    have hexponent : (0 - (digits.drop point.toNat).length : ℤ) = point - digits.length := by
      rw [List.length_drop]
      omega
    rw [List.take_append_drop, hexponent]

theorem scientific_mantissa (h : l.Proper) :
    ∃ m w f, l.scientific = m ++ l.power ∧ Mantissa m w f
      ∧ ∀ negative, (⟨negative, w, f, l.point - 1⟩ : Literal).value
        = l.toDecimal.toBinary64 negative := by
  obtain ⟨digits, point⟩ := l
  obtain ⟨hdigits, hne⟩ := h
  simp only [Literal.value, Literal.toDecimal, toDecimal]
  rcases digits with _ | ⟨d, _ | ⟨d', ds⟩⟩
  · exact absurd rfl hne
  · refine ⟨[d], [d], [], rfl, .whole hdigits hne, fun negative => ?_⟩
    simp
  · have hd := List.forall_mem_cons.1 hdigits
    refine ⟨d :: '.' :: d' :: ds, [d], d' :: ds, rfl, ?_, fun negative => ?_⟩
    · exact .point (d := [d]) (List.forall_mem_singleton.2 hd.1) (List.cons_ne_nil _ _) hd.2
    · have hexponent : (point - 1 - (d' :: ds).length : ℤ)
          = point - (d :: d' :: ds).length := by
        simp only [List.length_cons]
        omega
      rw [hexponent]
      rfl

/-- A layout is written as a numeral without a sign, of its own value. -/
theorem exists_numeral (h : l.Proper) :
    ∃ m p w f e, l.text = m ++ p ∧ Mantissa m w f ∧ Power p e
      ∧ ∀ negative, (⟨negative, w, f, e⟩ : Literal).value = l.toDecimal.toBinary64 negative := by
  unfold text
  split_ifs
  · obtain ⟨w, f, hm, hvalue⟩ := positional_mantissa h
    exact ⟨_, [], w, f, 0, (List.append_nil _).symm, hm, .none, hvalue⟩
  · obtain ⟨m, w, f, hm, hmantissa, hvalue⟩ := scientific_mantissa h
    exact ⟨m, _, w, f, _, hm, hmantissa, power_power, hvalue⟩

theorem point_or_power_mem (h : l.digits ≠ []) : '.' ∈ l.text ∨ 'e' ∈ l.text := by
  unfold text
  split_ifs
  · left
    unfold positional
    split_ifs <;> simp
  · right
    have hpower : 'e' ∈ l.power := List.mem_cons_self
    unfold scientific
    split
    · contradiction
    · exact List.mem_cons_of_mem _ hpower
    · exact List.mem_append_right _ hpower

end Layout

/-- A row of digits, with a sign before it or without. -/
def Grammar.Whole (t : List Char) : Prop :=
  ∃ s d negative, Sign s negative ∧ Digits d ∧ d ≠ [] ∧ t = s ++ d

theorem Grammar.Whole.not_mem {t : List Char} (h : Whole t) : '.' ∉ t ∧ 'e' ∉ t := by
  obtain ⟨s, d, negative, hs, hd, -, rfl⟩ := h
  have hdigits : '.' ∉ d ∧ 'e' ∉ d :=
    ⟨fun hc => absurd (hd _ hc).1 (by decide), fun hc => absurd (hd _ hc).2 (by decide)⟩
  cases hs <;> simpa using hdigits

namespace Binary64

variable {s : Bool} {u : ℕ} {h : u < limit} {p : Precise u}

theorem sign_chars (s : Bool) : Sign (if s then ['-'] else []) s := by
  cases s
  · exact .none
  · exact .minus

theorem digits_shortest_ne_zero (hu : u ≠ 0) (h : u < limit) (p : Precise u) :
    (shortest u).digits ≠ 0 := by
  intro hd
  have hshort := toBinary64_shortest u
  rw [Decimal.toBinary64, if_pos hd, ofUnits_precise h p, ofUnits_eq_finite_iff] at hshort
  exact hu (hshort.2.symm.trans (roundUnits_eq_zero (by decide)))

/-- The shortest digits of a double that is not zero, however they are laid out, stand for it. -/
theorem numeral_toChars (hu : u ≠ 0) :
    ∃ l, Numeral (finite s u h p).toChars l ∧ l.value = .finite s u h p := by
  have hproper := Layout.proper_ofDecimal (digits_shortest_ne_zero hu h p)
  obtain ⟨m, e, w, f, x, htext, hm, he, hvalue⟩ := Layout.exists_numeral hproper
  have hshort : (shortest u).toBinary64 false = .finite false u h p :=
    (toBinary64_shortest u).trans (ofUnits_precise h p)
  refine ⟨⟨s, w, f, x⟩, ?_, ?_⟩
  · rw [toChars, layout, if_neg hu, htext, ← List.append_assoc]
    exact .parts (sign_chars s) hm he
  · rw [hvalue, Layout.toBinary64_ofDecimal]
    exact Decimal.toBinary64_signed hshort s

theorem numeral_intText (n : ℤ) :
    ∃ l, Numeral (intText n).toList l
      ∧ l.value = ofUnits (decide (n < 0)) (n.natAbs * one) 1 := by
  have hchars : (intText n).toList
      = (if decide (n < 0) = true then ['-'] else []) ++ natDigits n.natAbs ++ [] := by
    rw [intText, String.toList_ofList, List.append_nil]
    by_cases hn : n < 0 <;> simp [hn]
  refine ⟨⟨decide (n < 0), natDigits n.natAbs, [], 0⟩, ?_, ?_⟩
  · rw [hchars]
    exact .parts (sign_chars _) (.whole digits_natDigits natDigits_ne_nil) .none
  · rw [Literal.value, Literal.toDecimal, Decimal.toBinary64_eq, List.append_nil,
      ofDigits_natDigits]
    simp

/-- A double as it comes back from its text: zero loses its sign. -/
def shown : Binary64 → Binary64
  | .finite s u h p => if u = 0 then zero else .finite s u h p
  | x => x

theorem shown_of_ne_zero (hu : u ≠ 0) : (finite s u h p).shown = .finite s u h p := if_neg hu

theorem shown_of_eq_zero (hu : u = 0) : (finite s u h p).shown = zero := if_pos hu

/-- A whole number up to `maxExact`, in units. -/
def Exact (u : ℕ) : Prop := one ∣ u ∧ u ≤ 2 ^ 53 * one

theorem exact_zero : Exact 0 := by
  unfold Exact
  generalize one = n
  exact ⟨dvd_zero n, Nat.zero_le _⟩

theorem toInt?_finite :
    (finite s u h p).toInt? = if u % one = 0 then some (signed s (u / one)) else none := rfl

theorem natAbs_signed {n : ℕ} : (signed s n).natAbs = n := by
  cases s <;> simp [signed]

theorem signed_zero : signed s 0 = 0 := by cases s <;> rfl

theorem decide_signed_neg {n : ℕ} (hn : 0 < n) : decide (signed s n < 0) = s := by
  cases s <;> simp [signed, hn]

theorem concise_of_exact (hu : Exact u) :
    (finite s u h p).concise = intText (signed s (u / one)) := by
  have hmax : (signed s (u / one)).natAbs ≤ maxExact := by
    rw [natAbs_signed, maxExact, Nat.one_shiftLeft]
    exact Nat.div_le_of_le_mul (Nat.mul_comm _ one ▸ hu.2)
  rw [concise, toInt?_finite, if_pos (Nat.mod_eq_zero_of_dvd hu.1)]
  exact if_pos hmax

theorem concise_of_not_exact (hu : ¬ Exact u) :
    (finite s u h p).concise = (finite s u h p).toText := by
  rw [concise, toInt?_finite]
  split_ifs with hdvd
  · refine if_neg fun hmax => hu ⟨Nat.dvd_of_mod_eq_zero hdvd, ?_⟩
    rw [natAbs_signed, maxExact, Nat.one_shiftLeft] at hmax
    calc u = u / one * one := (Nat.div_mul_cancel (Nat.dvd_of_mod_eq_zero hdvd)).symm
      _ ≤ 2 ^ 53 * one := Nat.mul_le_mul_right one hmax
  · rfl

theorem numeral_concise :
    ∃ l, Numeral (finite s u h p).concise.toList l ∧ l.value = (finite s u h p).shown := by
  by_cases hu : Exact u
  · rw [concise_of_exact hu]
    obtain ⟨l, hl, hvalue⟩ := numeral_intText (signed s (u / one))
    refine ⟨l, hl, ?_⟩
    have hunits : (signed s (u / one)).natAbs * one = u :=
      natAbs_signed.symm ▸ Nat.div_mul_cancel hu.1
    rw [hvalue, hunits]
    by_cases hzero : u = 0
    · rw [shown_of_eq_zero hzero, hzero, Nat.zero_div, decide_eq_false signed_zero.not_lt]
      rfl
    · have hpos : 0 < u / one := Nat.div_pos (Nat.le_of_dvd (Nat.pos_of_ne_zero hzero) hu.1) one_pos
      rw [shown_of_ne_zero hzero, ofUnits_precise h p, decide_signed_neg hpos]
  · have hne : u ≠ 0 := fun hzero => hu (hzero ▸ exact_zero)
    rw [concise_of_not_exact hu, shown_of_ne_zero hne, toText, String.toList_ofList]
    exact numeral_toChars hne

theorem whole_intText (n : ℤ) : Whole (intText n).toList := by
  refine ⟨if decide (n < 0) = true then ['-'] else [], natDigits n.natAbs, decide (n < 0),
    sign_chars _, digits_natDigits, natDigits_ne_nil, ?_⟩
  rw [intText, String.toList_ofList]
  by_cases hn : n < 0 <;> simp [hn]

theorem point_or_power_concise (hu : ¬ Exact u) :
    '.' ∈ (finite s u h p).concise.toList ∨ 'e' ∈ (finite s u h p).concise.toList := by
  have hne : u ≠ 0 := fun hzero => hu (hzero ▸ exact_zero)
  have hproper := Layout.proper_ofDecimal (digits_shortest_ne_zero hne h p)
  rw [concise_of_not_exact hu, toText, String.toList_ofList, toChars, layout, if_neg hne]
  exact (Layout.point_or_power_mem hproper.ne_nil).imp (List.mem_append_right _)
    (List.mem_append_right _)

/-- Only whole numbers up to `maxExact` stand without a point and without a power of ten. -/
theorem whole_concise_iff : Whole (finite s u h p).concise.toList ↔ Exact u := by
  refine ⟨fun hwhole => ?_, fun hu => concise_of_exact hu ▸ whole_intText _⟩
  by_contra hu
  rcases point_or_power_concise hu with hmem | hmem
  · exact hwhole.not_mem.1 hmem
  · exact hwhole.not_mem.2 hmem

theorem le_finite_iff {t : Bool} {v : ℕ} {h' : v < limit} {p' : Precise v} :
    (finite s u h p).le (.finite t v h' p') = true ↔ signed s u ≤ signed t v := by
  simp [le, lt]

/-- A double and what comes back from its text are numerically equal. -/
theorem exists_shown :
    ∃ t v h' p', (finite s u h p).shown = .finite t v h' p' ∧ signed t v = signed s u := by
  by_cases hu : u = 0
  · subst hu
    exact ⟨false, 0, h, p, ofUnits_precise h p, by rw [signed_zero, signed_zero]⟩
  · exact ⟨s, u, h, p, if_neg hu, rfl⟩

/-- Different numbers have different texts. -/
theorem signed_eq_of_concise {t : Bool} {v : ℕ} {h' : v < limit} {p' : Precise v}
    (heq : (finite s u h p).concise = (finite t v h' p').concise) : signed s u = signed t v := by
  obtain ⟨l, hl, hvalue⟩ := numeral_concise (s := s) (h := h) (p := p)
  obtain ⟨l', hl', hvalue'⟩ := numeral_concise (s := t) (h := h') (p := p')
  have hread := Literal.read?_numeral hl
  rw [heq, Literal.read?_numeral hl'] at hread
  obtain rfl : l' = l := congrArg Prod.fst (Option.some.inj hread)
  obtain ⟨a, b, ha, hb, hshown, hsigned⟩ := exists_shown (s := s) (h := h) (p := p)
  obtain ⟨a', b', ha', hb', hshown', hsigned'⟩ := exists_shown (s := t) (h := h') (p := p')
  rw [hvalue.symm.trans hvalue', hshown'] at hshown
  cases hshown
  exact hsigned.symm.trans hsigned'

end Binary64

end GaugeConsole
