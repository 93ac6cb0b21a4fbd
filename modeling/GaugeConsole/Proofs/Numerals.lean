import GaugeConsole.Command.Grammar
import Mathlib.Data.List.TakeWhile

/-!
# Literals of the grammar

A text that is a numeral of the grammar is read as a literal to its end (`Literal.read?_numeral`),
and whatever is read as a literal is a numeral (`Literal.numeral_of_read?`). Reading takes as many
digits as there are, so a numeral is only read to its end if nothing that could go on with it
stands behind it.
-/

namespace GaugeConsole

/-- Nothing with a property is next. -/
def Stops (p : Char → Bool) (r : List Char) : Prop := ∀ c ∈ r.head?, p c = false

theorem stops_nil (p : Char → Bool) : Stops p [] := by simp [Stops]

theorem stops_cons {p : Char → Bool} {c : Char} {r : List Char} :
    Stops p (c :: r) ↔ p c = false := by simp [Stops]

theorem stops_dropWhile (p : Char → Bool) (s : List Char) : Stops p (s.dropWhile p) := by
  intro c hc
  have h := List.head?_dropWhile_not p s
  rw [Option.mem_def.1 hc] at h
  exact h

section Span

variable {p : Char → Bool} {t r : List Char}

theorem takeWhile_append (ht : ∀ c ∈ t, p c = true) (hr : Stops p r) :
    (t ++ r).takeWhile p = t := by
  rw [List.takeWhile_append_of_pos ht]
  rcases r with _ | ⟨c, r⟩
  · simp
  · simp [stops_cons.1 hr]

theorem dropWhile_append (ht : ∀ c ∈ t, p c = true) (hr : Stops p r) :
    (t ++ r).dropWhile p = r := by
  rw [List.dropWhile_append_of_pos ht]
  rcases r with _ | ⟨c, r⟩
  · simp
  · simp [stops_cons.1 hr]

end Span

namespace Grammar

theorem digits_iff {s : List Char} : Digits s ↔ ∀ c ∈ s, isDigit c = true := by
  simp [Digits, isDigit]

theorem digits_takeWhile (s : List Char) : Digits (s.takeWhile isDigit) :=
  digits_iff.2 fun _ => List.mem_takeWhile_imp

/-- A mantissa begins with a digit or a point. -/
theorem Mantissa.head {m w f : List Char} (h : Mantissa m w f) :
    ∃ c r, m = c :: r ∧ (isDigit c = true ∨ c = '.') := by
  cases h with
  | whole hd hne =>
    obtain ⟨c, r, rfl⟩ := List.exists_cons_of_ne_nil hne
    exact ⟨c, r, rfl, .inl (digits_iff.1 hd c List.mem_cons_self)⟩
  | point hd hne _ =>
    obtain ⟨c, r, rfl⟩ := List.exists_cons_of_ne_nil hne
    exact ⟨c, _, rfl, .inl (digits_iff.1 hd c List.mem_cons_self)⟩
  | fraction hf hne => exact ⟨_, _, rfl, .inr rfl⟩

/-- Nothing that could go on with the digits of a number begins a power of ten. -/
theorem Power.stops {t : List Char} {e : Int} (h : Power t e) :
    Stops (fun c => isDigit c || c = '.') t := by
  cases h with
  | none => exact stops_nil _
  | mark hc =>
    rcases hc with rfl | rfl <;> exact stops_cons.2 (by decide)

/-- A numeral begins with a digit, a point or a sign. -/
theorem Numeral.head {t : List Char} {l : Literal} (h : Numeral t l) :
    ∃ c r, t = c :: r ∧ (isDigit c = true ∨ c = '.' ∨ c = '+' ∨ c = '-') := by
  obtain ⟨hs, hm, -⟩ := h
  cases hs with
  | none =>
    obtain ⟨c, r, rfl, hc⟩ := hm.head
    exact ⟨c, _, rfl, hc.imp_right .inl⟩
  | plus => exact ⟨_, _, rfl, .inr (.inr (.inl rfl))⟩
  | minus => exact ⟨_, _, rfl, .inr (.inr (.inr rfl))⟩

end Grammar

open Grammar

theorem takeSign_sound (s : List Char) :
    ∃ t, s = t ++ (takeSign s).2 ∧ Sign t (takeSign s).1 := by
  unfold takeSign
  split
  · exact ⟨['-'], rfl, .minus⟩
  · exact ⟨['+'], rfl, .plus⟩
  · exact ⟨[], rfl, .none⟩

theorem takeSign_append {t r : List Char} {negative : Bool} (h : Sign t negative)
    (hr : Stops (fun c => c = '-' || c = '+') r) : takeSign (t ++ r) = (negative, r) := by
  cases h with
  | none =>
    rcases r with _ | ⟨c, r⟩
    · rfl
    · have hc := stops_cons.1 hr
      simp only [Bool.or_eq_false_iff, decide_eq_false_iff_not] at hc
      rw [List.nil_append]
      unfold takeSign
      split <;> simp_all
  | plus => rfl
  | minus => rfl

/-- What begins with a character of a class without the signs has no sign. -/
theorem stops_sign (p : Char → Bool) {c : Char} {r : List Char} (hc : p c = true)
    (hminus : p '-' = false) (hplus : p '+' = false) :
    Stops (fun c => c = '-' || c = '+') (c :: r) := by
  have hm : c ≠ '-' := by
    rintro rfl
    exact Bool.false_ne_true (hminus.symm.trans hc)
  have hp : c ≠ '+' := by
    rintro rfl
    exact Bool.false_ne_true (hplus.symm.trans hc)
  exact stops_cons.2 (by simp [hm, hp])

namespace Literal

theorem mantissa?_sound {s w f r : List Char} (h : mantissa? s = some (w, f, r)) :
    ∃ t, s = t ++ r ∧ Mantissa t w f := by
  have hw := digits_takeWhile s
  have hs := List.takeWhile_append_dropWhile (p := isDigit) (l := s)
  unfold mantissa? at h
  split at h
  · rename_i r' hr'
    have hf := digits_takeWhile r'
    have hr := List.takeWhile_append_dropWhile (p := isDigit) (l := r')
    simp only [Option.ite_none_left_eq_some, Option.some.injEq, Prod.mk.injEq] at h
    obtain ⟨hne, rfl, rfl, rfl⟩ := h
    rw [hr'] at hs
    refine ⟨s.takeWhile isDigit ++ '.' :: r'.takeWhile isDigit, ?_, ?_⟩
    · rw [List.append_assoc, List.cons_append, hr, hs]
    · by_cases hwe : s.takeWhile isDigit = []
      · rw [hwe]
        exact .fraction hf fun hfe => hne ⟨hwe, hfe⟩
      · exact .point hw hwe hf
  · simp only [Option.ite_none_left_eq_some, Option.some.injEq, Prod.mk.injEq] at h
    obtain ⟨hne, rfl, rfl, rfl⟩ := h
    exact ⟨_, hs.symm, .whole hw hne⟩

theorem mantissa?_append {t w f r : List Char} (h : Mantissa t w f)
    (hr : Stops (fun c => isDigit c || c = '.') r) : mantissa? (t ++ r) = some (w, f, r) := by
  have hrd : Stops isDigit r := fun c hc => (Bool.or_eq_false_iff.1 (hr c hc)).1
  have hpoint : Stops isDigit ('.' :: (f ++ r)) := stops_cons.2 (by decide)
  unfold mantissa?
  cases h with
  | whole hd hne =>
    rw [takeWhile_append (digits_iff.1 hd) hrd, dropWhile_append (digits_iff.1 hd) hrd]
    split
    · exact absurd (stops_cons.1 hr) (by decide)
    · simp [hne]
  | point hd hne hf =>
    rw [List.append_assoc, List.cons_append, takeWhile_append (digits_iff.1 hd) hpoint,
      dropWhile_append (digits_iff.1 hd) hpoint]
    simp [takeWhile_append (digits_iff.1 hf) hrd, dropWhile_append (digits_iff.1 hf) hrd, hne]
  | fraction hf hne =>
    have hw : ('.' :: (f ++ r)).takeWhile isDigit = [] :=
      takeWhile_append (fun _ h => absurd h List.not_mem_nil) hpoint
    have hrest : ('.' :: (f ++ r)).dropWhile isDigit = '.' :: (f ++ r) :=
      dropWhile_append (fun _ h => absurd h List.not_mem_nil) hpoint
    rw [List.cons_append, hw, hrest]
    simp [takeWhile_append (digits_iff.1 hf) hrd, dropWhile_append (digits_iff.1 hf) hrd, hne]

theorem power_sound (s : List Char) :
    ∃ t, s = t ++ (power s).2 ∧ Power t (power s).1 := by
  rcases s with _ | ⟨c, r⟩
  · exact ⟨[], rfl, .none⟩
  by_cases hc : c = 'e' ∨ c = 'E'
  · obtain ⟨t, ht, hsign⟩ := takeSign_sound r
    rcases hq : takeSign r with ⟨negative, r'⟩
    rw [hq] at ht hsign
    simp only [power, hc, ↓reduceIte, hq]
    by_cases hd : r'.takeWhile isDigit = []
    · rw [if_pos hd]
      exact ⟨[], rfl, .none⟩
    · rw [if_neg hd]
      refine ⟨c :: t ++ r'.takeWhile isDigit, ?_, .mark hc hsign (digits_takeWhile r') hd⟩
      rw [ht, List.append_assoc, List.takeWhile_append_dropWhile, List.cons_append]
  · simp only [power, hc, ↓reduceIte]
    exact ⟨[], rfl, .none⟩

theorem power_append {t r : List Char} {e : Int} (h : Power t e) (hd : Stops isDigit r)
    (hmark : Stops (fun c => c = 'e' || c = 'E') r) : power (t ++ r) = (e, r) := by
  cases h with
  | none =>
    rcases r with _ | ⟨c, r⟩
    · rfl
    · have hc : ¬ (c = 'e' ∨ c = 'E') := by simpa using stops_cons.1 hmark
      simp only [List.nil_append, power, hc, ↓reduceIte]
  | mark hc hs hdigits hne =>
    rename_i c s d negative
    have hstop : Stops (fun c => c = '-' || c = '+') (d ++ r) := by
      obtain ⟨x, d', rfl⟩ := List.exists_cons_of_ne_nil hne
      exact stops_sign isDigit (digits_iff.1 hdigits x List.mem_cons_self) rfl rfl
    simp only [List.cons_append, List.append_assoc, power, hc, ↓reduceIte,
      takeSign_append hs hstop, takeWhile_append (digits_iff.1 hdigits) hd,
      dropWhile_append (digits_iff.1 hdigits) hd, hne]

/-- What is read as a literal is a numeral, and what follows it is left. -/
theorem numeral_of_read? {s r : List Char} {l : Literal} (h : read? s = some (l, r)) :
    ∃ t, s = t ++ r ∧ Numeral t l := by
  unfold read? at h
  obtain ⟨a, ha, hsign⟩ := takeSign_sound s
  rcases hq : takeSign s with ⟨negative, r₁⟩
  rw [hq] at h ha hsign
  simp only [] at h ha hsign
  split at h
  · simp at h
  rename_i w f r₂ hm
  obtain ⟨b, hb, hman⟩ := mantissa?_sound hm
  obtain ⟨c, hc, hpow⟩ := power_sound r₂
  simp only [Option.some.injEq, Prod.mk.injEq] at h
  obtain ⟨rfl, rfl⟩ := h
  refine ⟨a ++ b ++ c, ?_, .parts hsign hman hpow⟩
  rw [List.append_assoc, ← hc, List.append_assoc, ← hb]
  exact ha

/-- A numeral is read to its end, if nothing behind it could go on with it. -/
theorem read?_append {t r : List Char} {l : Literal} (h : Numeral t l)
    (hr : Stops (fun c => isDigit c || c = '.') r)
    (hmark : Stops (fun c => c = 'e' || c = 'E') r) : read? (t ++ r) = some (l, r) := by
  obtain ⟨hs, hm, hp⟩ := h
  rename_i s m p w f negative e
  have hstop : Stops (fun c => c = '-' || c = '+') (m ++ (p ++ r)) := by
    obtain ⟨c, r, rfl, hc⟩ := hm.head
    exact stops_sign (fun c => isDigit c || c = '.') (by simpa using hc) rfl rfl
  have hpower : Stops (fun c => isDigit c || c = '.') (p ++ r) := by
    rcases p with _ | ⟨c, p⟩
    · exact hr
    · exact stops_cons.2 (stops_cons.1 hp.stops)
  have hdigit : Stops isDigit r := fun c hc => (Bool.or_eq_false_iff.1 (hr c hc)).1
  unfold read?
  rw [List.append_assoc, List.append_assoc, takeSign_append hs hstop]
  simp only [mantissa?_append hm hpower, power_append hp hdigit hmark]

theorem read?_numeral {t : List Char} {l : Literal} (h : Numeral t l) :
    read? t = some (l, []) := by
  simpa using read?_append h (stops_nil _) (stops_nil _)

theorem stops_mantissa? {s w f r : List Char} (h : mantissa? s = some (w, f, r)) :
    Stops isDigit r := by
  unfold mantissa? at h
  split at h <;> simp only [Option.ite_none_left_eq_some, Option.some.injEq, Prod.mk.injEq] at h
  · obtain ⟨-, -, -, rfl⟩ := h
    exact stops_dropWhile _ _
  · obtain ⟨-, -, -, rfl⟩ := h
    exact stops_dropWhile _ _

theorem stops_power {s : List Char} (h : Stops isDigit s) : Stops isDigit (power s).2 := by
  rcases s with _ | ⟨c, r⟩
  · exact h
  · unfold power
    dsimp only
    split_ifs
    · exact h
    · exact stops_dropWhile _ _
    · exact stops_dropWhile _ _
    · exact h

/-- No digit is left behind a literal. -/
theorem stops_read? {s r : List Char} {l : Literal} (h : read? s = some (l, r)) :
    Stops isDigit r := by
  unfold read? at h
  dsimp only at h
  split at h
  · cases h
  · rename_i hm
    simp only [Option.some.injEq, Prod.mk.injEq] at h
    obtain ⟨-, rfl⟩ := h
    exact stops_power (stops_mantissa? hm)

theorem isSome_read?_cons {d : Char} (hd : isDigit d = true) (r : List Char) :
    (read? (d :: r)).isSome := by
  have hsign : takeSign (d :: r) = (false, d :: r) :=
    takeSign_append .none (stops_sign isDigit hd rfl rfl)
  have hmantissa : (mantissa? (d :: r)).isSome := by
    unfold mantissa?
    split <;> simp [hd]
  obtain ⟨⟨w, f, r'⟩, hm⟩ := Option.isSome_iff_exists.1 hmantissa
  simp only [read?, hsign, hm]
  rfl

end Literal

end GaugeConsole
