import GaugeConsole.Text.Integer
import GaugeConsole.Proofs.NumberTexts

/-!
# The texts of whole numbers

A text is read as a whole number just if it is white space, a sign, digits of any script with single
underscores between them, and white space again (`Integer.read?_eq_some_iff`). The digits that a
number is shown with are such a text (`Integer.written_natDigits`).
-/

namespace GaugeConsole

section Strip

variable {p : Char → Bool} {l m r : List Char}

/-- What is left out at the ends is of the class. -/
theorem stripBy_sound (p : Char → Bool) (s : List Char) :
    ∃ l r, s = l ++ stripBy p s ++ r ∧ (∀ c ∈ l, p c = true) ∧ ∀ c ∈ r, p c = true := by
  have hend := List.takeWhile_append_dropWhile (p := p) (l := (s.dropWhile p).reverse)
  refine ⟨s.takeWhile p, ((s.dropWhile p).reverse.takeWhile p).reverse, ?_,
    fun _ => List.mem_takeWhile_imp, fun c hc => List.mem_takeWhile_imp (List.mem_reverse.1 hc)⟩
  rw [stripBy, List.append_assoc, ← List.reverse_append, hend, List.reverse_reverse,
    List.takeWhile_append_dropWhile]

theorem stripBy_append (hl : ∀ c ∈ l, p c = true) (hm : ∀ c ∈ m, p c = false) (hne : m ≠ [])
    (hr : ∀ c ∈ r, p c = true) : stripBy p (l ++ m ++ r) = m := by
  have hstops : ∀ s t : List Char, (∀ c ∈ s, p c = false) → s ≠ [] → Stops p (s ++ t) := by
    rintro (_ | ⟨c, s⟩) t hs hne
    · exact absurd rfl hne
    · exact stops_cons.2 (hs c List.mem_cons_self)
  have hrev : ∀ c ∈ m.reverse, p c = false := fun c hc => hm c (List.mem_reverse.1 hc)
  have hback : ∀ c ∈ r.reverse, p c = true := fun c hc => hr c (List.mem_reverse.1 hc)
  have hfront : Stops p m.reverse := by
    simpa using hstops m.reverse [] hrev (by simpa using hne)
  rw [stripBy, List.append_assoc, dropWhile_append hl (hstops m r hm hne), List.reverse_append,
    dropWhile_append hback hfront, List.reverse_reverse]

end Strip

theorem isWhite_of_digitValue? {c : Char} {d : ℕ} (h : digitValue? c = some d) :
    isWhite c = false := by
  have hall : ∀ z ∈ zeroDigits, ∀ k < 10, isWhite (Char.ofNat (z + k)) = false := by
    decide +kernel
  obtain ⟨z, hz, -⟩ := Option.map_eq_some_iff.1 h
  have hrange := List.find?_some hz
  simp only [Bool.and_eq_true, decide_eq_true_eq] at hrange
  have hwhite := hall z (List.mem_of_find?_eq_some hz) (c.toNat - z) (by omega)
  rwa [Nat.add_sub_cancel' hrange.1, Char.ofNat_toNat] at hwhite

theorem digitValue?_of_isDigit {d : Char} (h : isDigit d = true) :
    digitValue? d = some (d.toNat - '0'.toNat) := by
  simp only [isDigit, Bool.and_eq_true, decide_eq_true_eq, Char.le_def, UInt32.le_iff_toNat_le] at h
  have hzero : zeroDigits.find? (fun z => z ≤ d.toNat && d.toNat < z + 10) = some '0'.toNat :=
    List.find?_cons_of_pos (by
      rw [Bool.and_eq_true, decide_eq_true_iff, decide_eq_true_iff]
      exact ⟨h.1, Nat.lt_succ_of_le h.2⟩)
  rw [digitValue?, hzero]
  rfl

namespace Integer

/-- Digits of any script with single underscores between them, and what they count. -/
inductive Row : List Char → List ℕ → Prop
  | last {c : Char} {d : ℕ} : digitValue? c = some d → Row [c] [d]
  | next {c : Char} {d : ℕ} {s : List Char} {ds : List ℕ} :
      digitValue? c = some d → Row s ds → Row (c :: s) (d :: ds)
  | gap {c : Char} {d : ℕ} {s : List Char} {ds : List ℕ} :
      digitValue? c = some d → Row s ds → Row (c :: '_' :: s) (d :: ds)

/-- White space, a sign and a row of digits, and white space again, and the number that it is. -/
inductive Written : List Char → ℤ → Prop
  | parts {l t u r : List Char} {negative : Bool} {ds : List ℕ} : (∀ c ∈ l, isWhite c = true) →
      Grammar.Sign t negative → Row u ds → ds.length ≤ maxDigits → (∀ c ∈ r, isWhite c = true) →
      Written (l ++ (t ++ u) ++ r) (if negative then -ofDigitValues ds else ofDigitValues ds)

variable {s u : List Char} {ds : List ℕ}

theorem Row.head (h : Row u ds) : ∃ c r, u = c :: r ∧ (digitValue? c).isSome := by
  cases h with
  | last hc => exact ⟨_, _, rfl, hc ▸ rfl⟩
  | next hc => exact ⟨_, _, rfl, hc ▸ rfl⟩
  | gap hc => exact ⟨_, _, rfl, hc ▸ rfl⟩

theorem Row.isWhite (h : Row u ds) : ∀ c ∈ u, isWhite c = false := by
  induction h with
  | last hc => simpa using isWhite_of_digitValue? hc
  | next hc _ ih => exact List.forall_mem_cons.2 ⟨isWhite_of_digitValue? hc, ih⟩
  | gap hc _ ih =>
    have hgap : GaugeConsole.isWhite '_' = false := by decide
    exact List.forall_mem_cons.2 ⟨isWhite_of_digitValue? hc, List.forall_mem_cons.2 ⟨hgap, ih⟩⟩

theorem row_of_digits? (h : digits? u = some ds) : Row u ds := by
  fun_induction digits? u generalizing ds with
  | case1 => cases h
  | case2 c =>
    obtain ⟨d, hd, rfl⟩ := Option.map_eq_some_iff.1 h
    exact .last hd
  | case3 c r ih =>
    obtain ⟨d, hd, h⟩ := Option.bind_eq_some_iff.1 h
    obtain ⟨es, hes, h⟩ := Option.bind_eq_some_iff.1 h
    cases h
    exact .gap hd (ih hes)
  | case4 c r _ _ ih =>
    obtain ⟨d, hd, h⟩ := Option.bind_eq_some_iff.1 h
    obtain ⟨es, hes, h⟩ := Option.bind_eq_some_iff.1 h
    cases h
    exact .next hd (ih hes)

theorem Row.digits?_eq (h : Row u ds) : digits? u = some ds := by
  induction h with
  | last hc => rw [digits?, hc, Option.map_some]
  | next hc hrow ih =>
    obtain ⟨e, r, rfl, he⟩ := hrow.head
    rw [digits?, hc, ih]
    · rfl
    · exact List.cons_ne_nil _ _
    · rintro r ⟨⟩
      exact absurd he (by decide)
  | gap hc _ ih =>
    rw [digits?, hc, ih]
    rfl

/-- A text is read as the number that is written in it, and no other text is read. -/
theorem read?_eq_some_iff {n : ℤ} : read? s = some n ↔ Written s n := by
  constructor
  · intro h
    obtain ⟨l, r, hs, hl, hr⟩ := stripBy_sound isWhite s
    obtain ⟨t, ht, hsign⟩ := takeSign_sound (stripBy isWhite s)
    unfold read? at h
    rcases htaken : takeSign (stripBy isWhite s) with ⟨negative, u⟩
    rw [htaken] at h ht hsign
    obtain ⟨ds, hds, hn⟩ := Option.bind_eq_some_iff.1 h
    obtain ⟨hlength, hn⟩ := Option.ite_none_left_eq_some.1 hn
    obtain rfl := Option.some.inj hn
    rw [hs, ht]
    exact .parts hl hsign (row_of_digits? hds) (not_lt.1 hlength) hr
  · rintro ⟨hl, hsign, hrow, hlength, hr⟩
    rename_i l t u r negative ds
    obtain ⟨c, u', rfl, hc⟩ := hrow.head
    have hstops : Stops (fun c => c = '-' || c = '+') (c :: u') :=
      stops_sign (fun c => (digitValue? c).isSome) hc (by decide) (by decide)
    have hmarks : ∀ d ∈ t, isWhite d = false := by
      cases hsign with
      | none => nofun
      | plus => exact List.forall_mem_singleton.2 (by decide)
      | minus => exact List.forall_mem_singleton.2 (by decide)
    have hstrip : stripBy isWhite (l ++ (t ++ c :: u') ++ r) = t ++ c :: u' :=
      stripBy_append hl (List.forall_mem_append.2 ⟨hmarks, hrow.isWhite⟩) (by simp) hr
    rw [read?, hstrip, takeSign_append hsign hstops]
    dsimp only
    rw [hrow.digits?_eq]
    exact if_neg hlength.not_gt

theorem row_of_digits : ∀ {u : List Char}, Grammar.Digits u → u ≠ [] →
    Row u (u.map fun d => d.toNat - '0'.toNat)
  | [], _, hne => absurd rfl hne
  | d :: u, h, _ => by
    have hd := digitValue?_of_isDigit (Grammar.digits_iff.1 h d List.mem_cons_self)
    rcases u with _ | ⟨e, u⟩
    · exact .last hd
    · exact .next hd (row_of_digits (fun c hc => h c (List.mem_cons_of_mem _ hc))
        (List.cons_ne_nil _ _))

theorem written_natDigits {n : ℕ} (h : (natDigits n).length ≤ maxDigits) :
    Written (natDigits n) n := by
  have hvalue : ofDigitValues ((natDigits n).map fun d => d.toNat - '0'.toNat) = n := by
    rw [ofDigitValues, List.foldl_map]
    exact ofDigits_natDigits
  have hwritten := Written.parts (l := []) (r := []) nofun .none
    (row_of_digits digits_natDigits natDigits_ne_nil) (by rwa [List.length_map]) nofun
  rw [hvalue] at hwritten
  simpa using hwritten

end Integer

end GaugeConsole
