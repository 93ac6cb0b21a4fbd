import GaugeConsole.Command.Reader
import GaugeConsole.Proofs.Numerals

/-!
# Reading follows the grammar

A line is read as a command exactly if the grammar derives the command from it, so it cannot mean
two different ones, and a line that is not blank and that nothing is derived from is rejected.

Each reader takes up texts of one rule (`pair_eq_ok`, `tags_eq_ok`). Where a rule leaves open how
far a text goes, as with letters and blanks, the reader goes on as long as it can, and the
characters that may follow make that the only way to cut the line.
-/

namespace GaugeConsole

open Grammar

theorem blanks_iff {s : List Char} : Blanks s ↔ ∀ c ∈ s, isBlank c = true := by
  simp [Blanks, isBlank, or_assoc]

theorem letters_iff {s : List Char} : Letters s ↔ ∀ c ∈ s, isLetter c = true := by
  simp [Letters, isLetter]

theorem isLetter_of_isBlank {c : Char} (h : isBlank c = true) : isLetter c = false := by
  simp only [isBlank, Bool.or_eq_true, decide_eq_true_eq] at h
  rcases h with ((rfl | rfl) | rfl) | rfl <;> decide

namespace Reader

section Monad

variable {α β : Type} {s r : List Char}

theorem bind_eq_ok {x : Reader α} {f : α → Reader β} {b : β} :
    (x >>= f) s = .ok (b, r) ↔ ∃ a s', x s = .ok (a, s') ∧ f a s' = .ok (b, r) := by
  change (x s >>= fun p => f p.1 p.2) = _ ↔ _
  rcases x s with e | ⟨a, s'⟩
  · simp [bind, Except.bind]
  · refine ⟨fun h => ⟨a, s', rfl, h⟩, ?_⟩
    rintro ⟨a', s'', h, hf⟩
    simp only [Except.ok.injEq, Prod.mk.injEq] at h
    obtain ⟨rfl, rfl⟩ := h
    exact hf

theorem bind_eq_error {x : Reader α} {f : α → Reader β} {e : List Char} (h : x s = .error e) :
    (x >>= f) s = .error e := by
  change (x s >>= fun p => f p.1 p.2) = _
  rw [h]
  rfl

theorem pure_eq_ok {a b : α} : (pure a : Reader α) s = .ok (b, r) ↔ b = a ∧ s = r := by
  change Except.ok (a, s) = .ok (b, r) ↔ _
  simp [eq_comm]

theorem all_eq_ok {x : Reader α} {a : α} : x.all s = .ok a ↔ x s = .ok (a, []) := by
  unfold Reader.all
  split <;> simp_all

end Monad

section Parts

variable {s r : List Char} {u : Unit}

theorem nextIs_eq_ok {c : Char} {b : Bool} :
    nextIs c s = .ok (b, r) ↔ b = decide (s.head? = some c) ∧ s = r := by
  simp [nextIs, eq_comm]

theorem char_eq_ok {c : Char} : char c s = .ok (u, r) ↔ s = c :: r := by
  rcases s with _ | ⟨d, s⟩
  · simp [char]
  · by_cases hd : d = c <;> simp [char, hd]

theorem word_eq_ok {w : String} : word w s = .ok (u, r) ↔ s = w.toList ++ r := by
  unfold word
  split_ifs with h
  · obtain ⟨t, rfl⟩ := List.isPrefixOf_iff_prefix.1 h
    simp
  · refine ⟨fun h => by simp at h, ?_⟩
    rintro rfl
    exact absurd (List.isPrefixOf_iff_prefix.2 (List.prefix_append _ _)) h

theorem word_eq_error {w : String} (h : ¬ w.toList <+: s) : word w s = .error s := by
  unfold word
  rw [if_neg (by rwa [List.isPrefixOf_iff_prefix])]

theorem blanks_eq_ok :
    blanks s = .ok (u, r) ↔ ∃ t, s = t ++ r ∧ Blanks t ∧ Stops isBlank r := by
  simp only [blanks, Except.ok.injEq, Prod.mk.injEq, true_and]
  constructor
  · rintro rfl
    exact ⟨s.takeWhile isBlank, List.takeWhile_append_dropWhile.symm,
      blanks_iff.2 fun _ => List.mem_takeWhile_imp, stops_dropWhile isBlank s⟩
  · rintro ⟨t, rfl, ht, hr⟩
    exact dropWhile_append (blanks_iff.1 ht) hr

theorem gap_eq_ok :
    gap s = .ok (u, r) ↔ ∃ t, s = t ++ r ∧ Blanks t ∧ t ≠ [] ∧ Stops isBlank r := by
  constructor
  · intro h
    rcases s with _ | ⟨c, s⟩
    · simp [gap] at h
    simp only [gap] at h
    split_ifs at h with hc
    obtain ⟨t, rfl, ht, hr⟩ := blanks_eq_ok.1 h
    exact ⟨c :: t, rfl, blanks_iff.2 (List.forall_mem_cons.2 ⟨hc, blanks_iff.1 ht⟩), by simp, hr⟩
  · rintro ⟨t, rfl, ht, hne, hr⟩
    obtain ⟨c, t, rfl⟩ := List.exists_cons_of_ne_nil hne
    have hc := List.forall_mem_cons.1 (blanks_iff.1 ht)
    rw [List.cons_append, gap, if_pos hc.1]
    exact blanks_eq_ok.2 ⟨t, rfl, blanks_iff.2 hc.2, hr⟩

theorem name_eq_ok {n : String} :
    name s = .ok (n, r) ↔
      ∃ t, s = t ++ r ∧ Letters t ∧ t ≠ [] ∧ n = String.ofList t ∧ Stops isLetter r := by
  unfold name
  constructor
  · intro h
    split at h
    · simp at h
    rename_i hne
    simp only [Except.ok.injEq, Prod.mk.injEq] at h
    obtain ⟨rfl, rfl⟩ := h
    exact ⟨s.takeWhile isLetter, List.takeWhile_append_dropWhile.symm,
      letters_iff.2 fun _ => List.mem_takeWhile_imp, hne, rfl, stops_dropWhile isLetter s⟩
  · rintro ⟨t, rfl, ht, hne, rfl, hr⟩
    rw [takeWhile_append (letters_iff.1 ht) hr, dropWhile_append (letters_iff.1 ht) hr]
    split
    · contradiction
    · rfl

end Parts

section Quoted

/-- What one step of `quotedRest` does to the rest of the text. -/
theorem map_eq_ok {x : Except (List Char) (List Char × List Char)} {c : Char} {t r : List Char} :
    (x.map fun (cs, r) => (c :: cs, r)) = .ok (t, r) ↔ ∃ t', t = c :: t' ∧ x = .ok (t', r) := by
  rcases x with e | ⟨cs, r'⟩
  · simp [Except.map]
  · simp only [Except.map, Except.ok.injEq, Prod.mk.injEq]
    constructor
    · rintro ⟨rfl, rfl⟩
      exact ⟨cs, rfl, rfl, rfl⟩
    · rintro ⟨t', rfl, rfl, rfl⟩
      exact ⟨rfl, rfl⟩

theorem quotedRest_sound :
    ∀ {s t r : List Char}, quotedRest s = .ok (t, r) → ∃ p, s = p ++ '"' :: r ∧ Quoted p t := by
  intro s
  induction s using quotedRest.induct with
  | case1 => simp [quotedRest]
  | case2 s =>
    intro t r h
    simp only [quotedRest, Except.ok.injEq, Prod.mk.injEq] at h
    obtain ⟨rfl, rfl⟩ := h
    exact ⟨[], rfl, .nil⟩
  | case3 s ih =>
    intro t r h
    rw [quotedRest] at h
    obtain ⟨t, rfl, hs⟩ := map_eq_ok.1 h
    obtain ⟨p, rfl, hp⟩ := ih hs
    exact ⟨_, rfl, .quote hp⟩
  | case4 s ih =>
    intro t r h
    rw [quotedRest] at h
    obtain ⟨t, rfl, hs⟩ := map_eq_ok.1 h
    obtain ⟨p, rfl, hp⟩ := ih hs
    exact ⟨_, rfl, .backslash hp⟩
  | case5 s => simp [quotedRest]
  | case6 c s h1 h2 h3 h4 ih =>
    intro t r h
    rw [quotedRest] at h
    · obtain ⟨t, rfl, hs⟩ := map_eq_ok.1 h
      obtain ⟨p, rfl, hp⟩ := ih hs
      exact ⟨_, rfl, .plain h1 h4 hp⟩
    all_goals assumption

theorem quotedRest_append {p t r : List Char} (h : Quoted p t) :
    quotedRest (p ++ '"' :: r) = .ok (t, r) := by
  induction h with
  | nil => simp [quotedRest]
  | quote _ ih => simp [quotedRest, ih, Except.map]
  | backslash _ ih => simp [quotedRest, ih, Except.map]
  | plain _ h _ ih => simp [quotedRest, h, ih, Except.map]

theorem quoted_eq_ok {s r : List Char} {v : String} :
    quoted s = .ok (v, r) ↔
      ∃ p t, s = '"' :: p ++ '"' :: r ∧ Quoted p t ∧ v = String.ofList t := by
  unfold quoted
  simp only [bind_eq_ok, char_eq_ok, pure_eq_ok]
  constructor
  · rintro ⟨_, s', rfl, t, r', h, rfl, rfl⟩
    obtain ⟨p, rfl, hp⟩ := quotedRest_sound h
    exact ⟨p, t, rfl, hp, rfl⟩
  · rintro ⟨p, t, rfl, hp, rfl⟩
    exact ⟨(), p ++ '"' :: r, rfl, t, r, quotedRest_append hp, rfl, rfl⟩

end Quoted

section Tags

variable {s r : List Char}

theorem pair_eq_ok {p : String × String} :
    pair s = .ok (p, r) ↔ ∃ t, s = t ++ r ∧ Pair t p := by
  unfold pair
  simp only [bind_eq_ok, name_eq_ok, blanks_eq_ok, char_eq_ok, quoted_eq_ok, pure_eq_ok]
  constructor
  · rintro ⟨key, _, ⟨k, rfl, hk, hne, rfl, -⟩, -, _, ⟨a, rfl, ha, -⟩, -, _, rfl, -, _,
      ⟨b, rfl, hb, -⟩, v, _, ⟨q, t, rfl, hq, rfl⟩, rfl, rfl⟩
    exact ⟨_, by simp, .parts hk hne ha hb hq⟩
  · rintro ⟨_, rfl, ⟨hk, hne, ha, hb, hq⟩⟩
    rename_i k a b q t
    have heq : Stops isBlank ('=' :: (b ++ '"' :: (q ++ '"' :: r))) := stops_cons.2 (by decide)
    have hquote : Stops isBlank ('"' :: (q ++ '"' :: r)) := stops_cons.2 (by decide)
    have hname : Stops isLetter (a ++ '=' :: (b ++ '"' :: (q ++ '"' :: r))) := by
      rcases a with _ | ⟨c, a⟩
      · exact stops_cons.2 (by decide)
      · exact stops_cons.2 (isLetter_of_isBlank (blanks_iff.1 ha c List.mem_cons_self))
    exact ⟨_, _, ⟨k, by simp, hk, hne, rfl, hname⟩, (), _, ⟨a, rfl, ha, heq⟩, (), _, rfl, (), _,
      ⟨b, rfl, hb, hquote⟩, _, r, ⟨q, t, rfl, hq, rfl⟩, rfl, rfl⟩

/-- Pairs begin with a letter, and there are no more of them than characters. -/
theorem pairs_text {t : List Char} {ps : List (String × String)} (h : Pairs t ps) :
    (∃ c t', t = c :: t' ∧ isLetter c = true) ∧ ps.length ≤ t.length := by
  have hpair : ∀ {t p}, Pair t p → ∃ c t', t = c :: t' ∧ isLetter c = true := by
    rintro _ _ ⟨hk, hne, -, -, -⟩
    obtain ⟨c, k, rfl⟩ := List.exists_cons_of_ne_nil hne
    exact ⟨c, _, rfl, letters_iff.1 hk c List.mem_cons_self⟩
  induction h with
  | one hp =>
    obtain ⟨c, t, rfl, hc⟩ := hpair hp
    exact ⟨⟨c, t, rfl, hc⟩, by simp⟩
  | more hp _ ih =>
    obtain ⟨c, t, rfl, hc⟩ := hpair hp
    have hlen := ih.2
    refine ⟨⟨c, _, rfl, hc⟩, ?_⟩
    simp only [List.length_cons, List.length_append]
    omega

theorem pairs_eq_ok :
    ∀ {n : ℕ} {s r : List Char} {ps : List (String × String)},
      pairs n s = .ok (ps, r) ↔
        ∃ t, s = t ++ r ∧ Pairs t ps ∧ ps.length ≤ n ∧ r.head? ≠ some ','
  | 0, s, r, ps => by
    simp only [pairs, fail, reduceCtorEq, false_iff]
    rintro ⟨t, rfl, hp, hlen, -⟩
    cases hp <;> simp at hlen
  | n + 1, s, r, ps => by
    simp only [pairs, bind_eq_ok, pair_eq_ok, nextIs_eq_ok]
    constructor
    · rintro ⟨p, s₁, ⟨t, rfl, hp⟩, b, s₂, ⟨hb, hs⟩, h⟩
      subst hb hs
      by_cases hc : s₁.head? = some ','
      · simp only [hc, decide_true, ↓reduceIte, bind_eq_ok, char_eq_ok, pure_eq_ok] at h
        obtain ⟨-, s', rfl, ps', _, h, rfl, rfl⟩ := h
        obtain ⟨t', rfl, hps, hlen, hr⟩ := pairs_eq_ok.1 h
        exact ⟨_, by simp, .more hp hps, by simpa using hlen, hr⟩
      · simp only [hc, decide_false, Bool.false_eq_true, ↓reduceIte, pure_eq_ok] at h
        obtain ⟨rfl, rfl⟩ := h
        exact ⟨t, rfl, .one hp, by simp, hc⟩
    · rintro ⟨_, rfl, hps, hlen, hr⟩
      cases hps with
      | one hp =>
        refine ⟨_, r, ⟨_, rfl, hp⟩, false, r, ⟨by simp [hr], rfl⟩, ?_⟩
        exact pure_eq_ok.2 ⟨rfl, rfl⟩
      | more hp hps =>
        rename_i t t' p ps
        refine ⟨p, ',' :: (t' ++ r), ⟨t, by simp, hp⟩, true, _, ⟨by simp, rfl⟩, ?_⟩
        have ih : pairs n (t' ++ r) = .ok (ps, r) :=
          pairs_eq_ok.2 ⟨t', rfl, hps, by simpa using hlen, hr⟩
        simp only [↓reduceIte, bind_eq_ok, char_eq_ok, pure_eq_ok]
        exact ⟨(), _, rfl, ps, r, ih, rfl, rfl⟩

theorem tags_eq_ok {tags : Tags} :
    Reader.tags s = .ok (tags, r) ↔ ∃ t, s = t ++ r ∧ t ≠ [] ∧ Bracketed t tags := by
  unfold Reader.tags
  simp only [bind_eq_ok, char_eq_ok, nextIs_eq_ok]
  constructor
  · rintro ⟨-, s₁, rfl, b, s₂, ⟨hb, hs⟩, h⟩
    subst hb hs
    by_cases hc : s₁.head? = some ']'
    · simp only [hc, decide_true, ↓reduceIte, bind_eq_ok, char_eq_ok, pure_eq_ok] at h
      obtain ⟨-, _, rfl, rfl, rfl⟩ := h
      exact ⟨['[', ']'], rfl, by simp, .empty⟩
    · simp only [hc, decide_false, Bool.false_eq_true, ↓reduceIte, bind_eq_ok, pure_eq_ok,
        char_eq_ok] at h
      obtain ⟨_, _, hget, ps, _, hps, -, _, rfl, rfl, rfl⟩ := h
      simp only [get, getThe, MonadStateOf.get, StateT.get, pure, Except.pure, Except.ok.injEq,
        Prod.mk.injEq] at hget
      obtain ⟨rfl, rfl⟩ := hget
      obtain ⟨t, rfl, hps, -, -⟩ := pairs_eq_ok.1 hps
      exact ⟨_, by simp, by simp, .pairs hps⟩
  · rintro ⟨_, rfl, hne, h⟩
    cases h with
    | missing => contradiction
    | empty =>
      exact ⟨(), ']' :: r, rfl, true, _, ⟨by simp, rfl⟩, rfl⟩
    | pairs hps =>
      rename_i t ps
      obtain ⟨⟨c, t', rfl, hc⟩, hlen⟩ := pairs_text hps
      have hc' : c ≠ ']' := by
        rintro rfl
        exact absurd hc (by decide)
      have hread : pairs (c :: t' ++ ']' :: r).length (c :: t' ++ ']' :: r)
          = .ok (ps, ']' :: r) := by
        refine pairs_eq_ok.2 ⟨c :: t', rfl, hps, ?_, by simp⟩
        simp only [List.length_append]
        omega
      refine ⟨(), c :: t' ++ ']' :: r, by simp, false, _, ⟨by simp [hc'], rfl⟩, ?_⟩
      simp only [Bool.false_eq_true, ↓reduceIte, bind_eq_ok, char_eq_ok, pure_eq_ok]
      exact ⟨_, _, rfl, ps, _, hread, (), r, rfl, rfl, rfl⟩

/-- Tags that are not missing begin with a bracket. -/
theorem bracketed_head {t : List Char} {tags : Tags} (h : Bracketed t tags) (hne : t ≠ []) :
    t.head? = some '[' := by
  cases h with
  | missing => contradiction
  | empty => rfl
  | pairs _ => rfl

theorem metric_sound {m : Metric} (h : metric s = .ok (m, r)) : ∃ t, s = t ++ r ∧ Named t m := by
  unfold metric at h
  simp only [bind_eq_ok, name_eq_ok, nextIs_eq_ok] at h
  obtain ⟨n, s₁, ⟨t, rfl, ht, hne, rfl, -⟩, b, s₂, ⟨hb, hs⟩, h⟩ := h
  subst hb hs
  by_cases hc : s₁.head? = some '['
  · simp only [hc, decide_true, ↓reduceIte, bind_eq_ok, tags_eq_ok, pure_eq_ok] at h
    obtain ⟨tags, _, ⟨t', rfl, -, htags⟩, rfl, rfl⟩ := h
    exact ⟨t ++ t', by simp, .parts ht hne htags⟩
  · simp only [hc, decide_false, Bool.false_eq_true, ↓reduceIte, pure_eq_ok] at h
    obtain ⟨rfl, rfl⟩ := h
    exact ⟨t ++ [], by simp, .parts ht hne .missing⟩

theorem metric_append {t : List Char} {m : Metric} (h : Named t m)
    (hr : Stops (fun c => isLetter c || c = '[') r) : metric (t ++ r) = .ok (m, r) := by
  obtain ⟨hn, hne, htags⟩ := h
  rename_i n t tags
  have hstop : Stops isLetter (t ++ r) := by
    rcases t with _ | ⟨c, t⟩
    · exact fun c hc => (Bool.or_eq_false_iff.1 (hr c hc)).1
    · have hc := bracketed_head htags (by simp)
      simp only [List.head?_cons, Option.some.injEq] at hc
      subst hc
      exact stops_cons.2 (by decide)
  have hname : name (n ++ t ++ r) = .ok (String.ofList n, t ++ r) :=
    name_eq_ok.2 ⟨n, by simp, hn, hne, rfl, hstop⟩
  unfold metric
  refine bind_eq_ok.2 ⟨_, _, hname, bind_eq_ok.2 ⟨_, _, nextIs_eq_ok.2 ⟨rfl, rfl⟩, ?_⟩⟩
  by_cases ht : t = []
  · subst ht
    have hhead : r.head? ≠ some '[' := fun hc => absurd (hr _ hc) (by decide)
    cases htags
    simp only [List.nil_append, hhead, decide_false, Bool.false_eq_true, ↓reduceIte]
    rfl
  · have hhead : (t ++ r).head? = some '[' := by
      rw [List.head?_append, bracketed_head htags ht]
      rfl
    simp only [hhead, decide_true, ↓reduceIte, bind_eq_ok, tags_eq_ok, pure_eq_ok]
    exact ⟨tags, r, ⟨t, rfl, ht, htags⟩, rfl, rfl⟩

/-- A metric's text does not begin with a blank. -/
theorem named_stops {t : List Char} {m : Metric} (h : Named t m) (r : List Char) :
    Stops isBlank (t ++ r) := by
  obtain ⟨hn, hne, -⟩ := h
  obtain ⟨c, n, rfl⟩ := List.exists_cons_of_ne_nil hne
  have hc := letters_iff.1 hn c List.mem_cons_self
  refine stops_cons.2 ?_
  by_contra hb
  rw [isLetter_of_isBlank (by simpa using hb)] at hc
  contradiction

end Tags

section Commands

variable {line : List Char} {c : Command}

theorem number_sound {s r : List Char} {x : Binary64} (h : number s = .ok (x, r)) :
    ∃ t l, s = t ++ r ∧ Numeral t l ∧ x = l.value := by
  unfold number at h
  split at h
  · rename_i l r' hl
    simp only [Except.ok.injEq, Prod.mk.injEq] at h
    obtain ⟨rfl, rfl⟩ := h
    obtain ⟨t, rfl, ht⟩ := Literal.numeral_of_read? hl
    exact ⟨t, l, rfl, ht, rfl⟩
  · simp at h

theorem number_numeral {t : List Char} {l : Literal} (h : Numeral t l) :
    number t = .ok (l.value, []) := by
  unfold number
  rw [Literal.read?_numeral h]

/-- A numeral is not blank, not even at its beginning. -/
theorem numeral_stops {t : List Char} {l : Literal} (h : Numeral t l) : Stops isBlank t := by
  obtain ⟨hs, hm, -⟩ := h
  cases hs with
  | none =>
    obtain ⟨c, m, rfl, hc⟩ := hm.head
    refine stops_cons.2 ?_
    rcases hc with hc | rfl
    · by_contra hb
      simp only [Bool.not_eq_false, isBlank, Bool.or_eq_true, decide_eq_true_eq] at hb
      rcases hb with ((rfl | rfl) | rfl) | rfl <;> exact absurd hc (by decide)
    · decide
  | plus => exact stops_cons.2 (by decide)
  | minus => exact stops_cons.2 (by decide)

/-- The parts of a command that only names a metric. -/
theorem named_command {w : String} {f : Metric → Command} :
    (do word w; gap; return f (← metric) : Reader Command) line = .ok (c, []) ↔
      ∃ g s m, line = w.toList ++ g ++ s ∧ Blanks g ∧ g ≠ [] ∧ Named s m ∧ c = f m := by
  simp only [bind_eq_ok, word_eq_ok, gap_eq_ok, pure_eq_ok]
  constructor
  · rintro ⟨-, _, rfl, -, _, ⟨g, rfl, hg, hne, -⟩, m, _, hm, rfl, rfl⟩
    obtain ⟨s, rfl, hs⟩ := metric_sound hm
    exact ⟨g, s, m, by simp, hg, hne, hs, rfl⟩
  · rintro ⟨g, s, m, rfl, hg, hne, hm, rfl⟩
    have hread : metric s = .ok (m, []) := by
      simpa using metric_append hm (stops_nil _)
    have hstop : Stops isBlank s := by simpa using named_stops hm []
    exact ⟨(), g ++ s, by simp, (), s, ⟨g, rfl, hg, hne, hstop⟩, m, [], hread, rfl, rfl⟩

theorem setCommand_eq_ok :
    setCommand line = .ok (c, []) ↔ ∃ g s a b t m l,
      line = "set".toList ++ g ++ s ++ a ++ '=' :: b ++ t ∧ Blanks g ∧ g ≠ [] ∧ Named s m
        ∧ Blanks a ∧ Blanks b ∧ Numeral t l ∧ c = .set m l.value := by
  unfold setCommand
  simp only [bind_eq_ok, word_eq_ok, gap_eq_ok, blanks_eq_ok, char_eq_ok, pure_eq_ok]
  constructor
  · rintro ⟨-, _, rfl, -, _, ⟨g, rfl, hg, hne, -⟩, m, _, hread, -, _, ⟨a, rfl, ha, -⟩, -, _, rfl, -,
      _, ⟨b, rfl, hb, -⟩, x, _, hx, rfl, rfl⟩
    obtain ⟨s, rfl, hm⟩ := metric_sound hread
    obtain ⟨t, l, rfl, ht, rfl⟩ := number_sound hx
    exact ⟨g, s, a, b, t, m, l, by simp, hg, hne, hm, ha, hb, ht, rfl⟩
  · rintro ⟨g, s, a, b, t, m, l, rfl, hg, hne, hm, ha, hb, ht, rfl⟩
    have hafter : Stops (fun c => isLetter c || c = '[') (a ++ '=' :: (b ++ t)) := by
      rcases a with _ | ⟨d, a⟩
      · exact stops_cons.2 (by decide)
      · have hd := blanks_iff.1 ha d List.mem_cons_self
        have hd' : d ≠ '[' := by
          rintro rfl
          exact absurd hd (by decide)
        exact stops_cons.2 (by simp [isLetter_of_isBlank hd, hd'])
    have heq : Stops isBlank ('=' :: (b ++ t)) := stops_cons.2 (by decide)
    exact ⟨(), g ++ (s ++ (a ++ '=' :: (b ++ t))), by simp, (), _,
      ⟨g, rfl, hg, hne, named_stops hm _⟩, m, _, metric_append hm hafter, (), _,
      ⟨a, rfl, ha, heq⟩, (), _, rfl, (), t, ⟨b, rfl, hb, numeral_stops ht⟩, l.value, [],
      number_numeral ht, rfl, rfl⟩

theorem exitCommand_eq_ok :
    exitCommand line = .ok (c, []) ↔
      (line = "exit".toList ∨ line = "quit".toList) ∧ c = .exit := by
  unfold exitCommand
  simp only [bind_eq_ok, nextIs_eq_ok]
  constructor
  · rintro ⟨b, _, ⟨-, rfl⟩, h⟩
    cases b
    · simp only [Bool.false_eq_true, ↓reduceIte, bind_eq_ok, word_eq_ok, pure_eq_ok] at h
      obtain ⟨-, _, rfl, rfl, rfl⟩ := h
      exact ⟨.inl (List.append_nil _), rfl⟩
    · simp only [↓reduceIte, bind_eq_ok, word_eq_ok, pure_eq_ok] at h
      obtain ⟨-, _, rfl, rfl, rfl⟩ := h
      exact ⟨.inr (List.append_nil _), rfl⟩
  · rintro ⟨rfl | rfl, rfl⟩
    · exact ⟨_, _, ⟨rfl, rfl⟩, rfl⟩
    · exact ⟨_, _, ⟨rfl, rfl⟩, rfl⟩

theorem helpCommand_eq_ok :
    helpCommand line = .ok (c, []) ↔ line = "help".toList ∧ c = .help := by
  unfold helpCommand
  simp only [bind_eq_ok, word_eq_ok, pure_eq_ok]
  constructor
  · rintro ⟨-, _, rfl, rfl, rfl⟩
    exact ⟨List.append_nil _, rfl⟩
  · rintro ⟨rfl, rfl⟩
    exact ⟨(), [], (List.append_nil _).symm, rfl, rfl⟩

theorem derives_of_all {x : Reader Command} (hx : x ∈ kinds) (h : x.all line = .ok c) :
    Command.Derives line c := by
  rw [all_eq_ok] at h
  simp only [kinds, List.mem_cons, List.not_mem_nil, or_false] at hx
  rcases hx with rfl | rfl | rfl | rfl | rfl
  · obtain ⟨g, s, a, b, t, m, l, rfl, hg, hne, hm, ha, hb, ht, rfl⟩ := setCommand_eq_ok.1 h
    exact .set hg hne hm ha hb ht
  · obtain ⟨g, s, m, rfl, hg, hne, hm, rfl⟩ := named_command.1 h
    exact .del hg hne hm
  · obtain ⟨g, s, m, rfl, hg, hne, hm, rfl⟩ := named_command.1 h
    exact .get hg hne hm
  · obtain ⟨rfl | rfl, rfl⟩ := exitCommand_eq_ok.1 h
    · exact .exit
    · exact .quit
  · obtain ⟨rfl, rfl⟩ := helpCommand_eq_ok.1 h
    exact .help

theorem derives_of_firstOf :
    ∀ {rs : List (Reader Command)} {n : ℕ}, (∀ x ∈ rs, x ∈ kinds) →
      firstOf line n rs = .ok c → Command.Derives line c
  | [], n, _, h => by simp [firstOf] at h
  | x :: rs, n, hrs, h => by
    simp only [firstOf] at h
    split at h
    · rename_i d hd
      simp only [Except.ok.injEq] at h
      subst h
      exact derives_of_all (hrs x List.mem_cons_self) hd
    · exact derives_of_firstOf (fun y hy => hrs y (List.mem_cons_of_mem _ hy)) h

theorem firstOf_cons {x : Reader Command} {rs : List (Reader Command)} {n : ℕ}
    (h : x line = .ok (c, [])) : firstOf line n (x :: rs) = .ok c := by
  simp only [firstOf, all_eq_ok.2 h]

/-- A line is rejected at one of its characters or at its end. -/
theorem column_firstOf {e : ReadError} :
    ∀ {rs : List (Reader Command)} {n : ℕ}, n ≤ line.length → firstOf line n rs = .error e →
      e.column ≤ line.length
  | [], n, hn, h => by
    obtain rfl := Except.error.inj h
    exact hn
  | x :: rs, n, hn, h => by
    simp only [firstOf] at h
    split at h
    · simp at h
    · exact column_firstOf (by omega) h

/-- A reading that stops at once does not count. -/
theorem firstOf_skip {x : Reader Command} {rs : List (Reader Command)} {n : ℕ}
    (h : x line = .error line) : firstOf line n (x :: rs) = firstOf line n rs := by
  simp only [firstOf, Reader.all, h, Nat.sub_self, Nat.max_zero]

theorem not_prefix_of_head {w : String} {s : List Char} (hw : w.toList ≠ [])
    (h : w.toList.head? ≠ s.head?) : ¬ w.toList <+: s := by
  rintro ⟨t, rfl⟩
  obtain ⟨c, cs, hcs⟩ := List.exists_cons_of_ne_nil hw
  simp [hcs] at h

/-- A reader that begins with a word stops at once where a text begins otherwise. -/
theorem skip_word {α : Type} {w : String} {f : Unit → Reader α} {s : List Char}
    (h : ¬ w.toList <+: s) : (word w >>= f) s = .error s :=
  bind_eq_error (word_eq_error h)

theorem firstOf_of_derives (h : Command.Derives line c) : firstOf line 0 kinds = .ok c := by
  unfold kinds
  cases h with
  | set hg hne hm ha hb ht =>
    exact firstOf_cons (setCommand_eq_ok.2 ⟨_, _, _, _, _, _, _, rfl, hg, hne, hm, ha, hb, ht, rfl⟩)
  | @del g s m hg hne hm =>
    have hset : setCommand ("del".toList ++ g ++ s) = .error ("del".toList ++ g ++ s) :=
      skip_word (not_prefix_of_head (by decide) (by simp))
    rw [firstOf_skip hset]
    exact firstOf_cons (named_command.2 ⟨_, _, _, rfl, hg, hne, hm, rfl⟩)
  | @get g s m hg hne hm =>
    have hset : setCommand ("get".toList ++ g ++ s) = .error ("get".toList ++ g ++ s) :=
      skip_word (not_prefix_of_head (by decide) (by simp))
    have hdel : delCommand ("get".toList ++ g ++ s) = .error ("get".toList ++ g ++ s) :=
      skip_word (not_prefix_of_head (by decide) (by simp))
    rw [firstOf_skip hset, firstOf_skip hdel]
    exact firstOf_cons (named_command.2 ⟨_, _, _, rfl, hg, hne, hm, rfl⟩)
  | exit => rfl
  | quit => rfl
  | help => rfl

end Commands

end Reader

namespace Command

/-- A command's text begins with a letter of its word. -/
theorem Derives.not_blanks {line : List Char} {c : Command} (h : Derives line c) :
    ¬ Blanks line := by
  intro hb
  cases h with
  | set => simpa using hb 's' (by simp)
  | del => simpa using hb 'd' (by simp)
  | get => simpa using hb 'g' (by simp)
  | exit => simpa using hb 'e' (by simp)
  | quit => simpa using hb 'q' (by simp)
  | help => simpa using hb 'h' (by simp)

theorem firstOf_eq_ok_iff {line : List Char} {c : Command} :
    Reader.firstOf line 0 Reader.kinds = .ok c ↔ Derives line c :=
  ⟨Reader.derives_of_firstOf fun _ h => h, Reader.firstOf_of_derives⟩

theorem read_of_blanks {line : String} (h : Blanks line.toList) : read line = .ok none :=
  if_pos (List.all_eq_true.2 (blanks_iff.1 h))

theorem read_of_not_blanks {line : String} (h : ¬ Blanks line.toList) :
    read line = (Reader.firstOf line.toList 0 Reader.kinds).map some :=
  if_neg fun hb => h (blanks_iff.2 (List.all_eq_true.1 hb))

theorem read_eq_some_iff {line : String} {c : Command} :
    read line = .ok (some c) ↔ Derives line.toList c := by
  rw [← firstOf_eq_ok_iff]
  by_cases hb : Blanks line.toList
  · rw [read_of_blanks hb]
    refine ⟨fun h => by simp at h, fun h => ?_⟩
    exact absurd hb (firstOf_eq_ok_iff.1 h).not_blanks
  · rw [read_of_not_blanks hb]
    cases Reader.firstOf line.toList 0 Reader.kinds <;> simp [Except.map]

theorem read_eq_none_iff {line : String} : read line = .ok none ↔ Blanks line.toList := by
  refine ⟨fun h => ?_, read_of_blanks⟩
  by_contra hb
  rw [read_of_not_blanks hb] at h
  cases hf : Reader.firstOf line.toList 0 Reader.kinds <;> simp [hf, Except.map] at h

theorem column_le {line : String} {e : ReadError} (h : read line = .error e) :
    e.column ≤ line.length := by
  by_cases hb : Blanks line.toList
  · rw [read_of_blanks hb] at h
    cases h
  · rw [read_of_not_blanks hb] at h
    rcases hf : Reader.firstOf line.toList 0 Reader.kinds with e' | c <;> rw [hf] at h <;> cases h
    rw [← String.length_toList]
    exact Reader.column_firstOf (Nat.zero_le _) hf

/-- A metric that is written in a command has a name of letters. -/
theorem Derives.letters_set {line : List Char} {m : Metric} {v : Binary64}
    (h : Derives line (.set m v)) : Letters m.name.toList ∧ m.name ≠ "" := by
  cases h with
  | set _ _ hm _ _ _ =>
    obtain ⟨hn, hne, -⟩ := hm
    exact ⟨by simpa using hn, by simpa using hne⟩

/-- A blank line is no command, a line that the grammar derives a command from is that command and
no other, and every other line is rejected. Of the tags with one key the last counts. -/
theorem read_follows_grammar (line : String) :
    (read line = .ok none ↔ Blanks line.toList)
      ∧ (∀ c, read line = .ok (some c) ↔ Derives line.toList c)
      ∧ ((∃ e, read line = .error e) ↔ ¬ Blanks line.toList ∧ ∀ c, ¬ Derives line.toList c)
      ∧ (∀ c d, Derives line.toList c → Derives line.toList d → c = d)
      ∧ ∀ (ps : List (String × String)) (key : String), (OrderedMap.ofList ps).get? key
        = (ps.reverse.find? (·.1 = key)).map Prod.snd := by
  refine ⟨read_eq_none_iff, fun c => read_eq_some_iff, ?_, fun c d hc hd => ?_,
    OrderedMap.get?_ofList⟩
  · rw [← read_eq_none_iff]
    simp only [← read_eq_some_iff]
    rcases read line with e | _ | c <;> simp
  · have h := (read_eq_some_iff.2 hc).symm.trans (read_eq_some_iff.2 hd)
    simpa using h

end Command

end GaugeConsole
