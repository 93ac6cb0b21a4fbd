import GaugeConsole.Proofs.Completions

/-!
# Where a line is rejected

The column of a rejected line is where the line can be completed no further: the characters before
it begin a line that is a command, and the character at it makes that impossible, whatever may
follow (`Command.column_of_error`). A number that is begun and not ended is an exception, since its
reader goes back to where the number begins or to where it could end.

Where a reader stops depends on the characters before and on the next one (`Reader.Steady`). A line
that begins with a word of a command can only be that command, and the others stop at once.
-/

namespace GaugeConsole

namespace Reader

open Grammar

section Monad

variable {α β : Type} {x y : Reader α} {marks : List Char}

theorem bind_congr {f g : α → Reader β} {s : List Char}
    (h : ∀ a s', x s = .ok (a, s') → f a s' = g a s') : (x >>= f) s = (x >>= g) s := by
  change (x s >>= fun p => f p.1 p.2) = (x s >>= fun p => g p.1 p.2)
  rcases hx : x s with e | ⟨a, s'⟩
  · rfl
  · exact h a s' hx

theorem bind_congr_left {f : α → Reader β} {s : List Char} (h : x s = y s) :
    (x >>= f) s = (y >>= f) s := by
  change (x s >>= fun p => f p.1 p.2) = (y s >>= fun p => f p.1 p.2)
  rw [h]

/-- Where a reader stops, and with which result, is decided by the next character, unless this is
one of the marks. -/
structure Steady (marks : List Char) (x : Reader α) : Prop where
  left : ∀ {s r : List Char} {a : α}, x s = .ok (a, r) → r <:+ s
  left_error : ∀ {s r : List Char}, x s = .error r → r <:+ s
  ok : ∀ {p r : List Char} {d : Char} {a : α}, d ∉ marks → x (p ++ d :: r) = .ok (a, d :: r) →
    ∀ q, x (p ++ d :: q) = .ok (a, d :: q)
  error : ∀ {p r : List Char} {d : Char}, d ∉ marks → x (p ++ d :: r) = .error (d :: r) →
    ∀ q, x (p ++ d :: q) = .error (d :: q)

theorem Viable.left {L : Language Char} (h : Viable x L) {s r : List Char} {a : α}
    (hx : x s = .ok (a, r)) : r <:+ s := by
  obtain ⟨p, rfl, -⟩ := h.taken hx
  exact List.suffix_append p r

theorem Viable.left_error {L : Language Char} (h : Viable x L) {s r : List Char}
    (hx : x s = .error r) : r <:+ s := by
  obtain ⟨p, q, rfl, -⟩ := h.begun hx
  exact List.suffix_append p r

/-- What a reader leaves begins with the character that decided it. -/
theorem Steady.ok_of_left (h : Steady [] x) {p t r : List Char} {d : Char} {a : α}
    (hx : x (p ++ d :: r) = .ok (a, t ++ d :: r)) (q : List Char) :
    x (p ++ d :: q) = .ok (a, t ++ d :: q) := by
  obtain ⟨u, hu⟩ := h.left hx
  rw [← List.append_assoc] at hu
  obtain rfl := (List.append_left_inj _).1 hu
  rcases t with _ | ⟨c, t⟩
  · exact h.ok List.not_mem_nil (by simpa using hx) q
  · have hx' : x (u ++ c :: (t ++ d :: r)) = .ok (a, c :: (t ++ d :: r)) := by simpa using hx
    simpa using h.ok List.not_mem_nil hx' (t ++ d :: q)

theorem steady_pure (a : α) : Steady marks (pure a) where
  left h := (pure_eq_ok.1 h).2 ▸ List.suffix_rfl
  left_error h := nomatch h
  ok _ h q := by
    obtain ⟨rfl, hp⟩ := pure_eq_ok.1 h
    obtain rfl := List.append_left_eq_self.1 hp
    rfl
  error _ h := nomatch h

/-- Only the last reader may have marks: where others stop is where the next one begins. -/
theorem Steady.bind {f : α → Reader β} (hx : Steady [] x) (hf : ∀ a, Steady marks (f a)) :
    Steady marks (x >>= f) where
  left h := by
    obtain ⟨a, s', hs, hr⟩ := bind_eq_ok.1 h
    exact ((hf a).left hr).trans (hx.left hs)
  left_error h := by
    obtain hs | ⟨a, s', hs, hr⟩ := bind_eq_error_iff.1 h
    · exact hx.left_error hs
    · exact ((hf a).left_error hr).trans (hx.left hs)
  ok hd h q := by
    obtain ⟨a, s', hs, hr⟩ := bind_eq_ok.1 h
    obtain ⟨t, rfl⟩ := (hf a).left hr
    exact bind_eq_ok.2 ⟨a, _, hx.ok_of_left hs q, (hf a).ok hd hr q⟩
  error hd h q := by
    obtain hs | ⟨a, s', hs, hr⟩ := bind_eq_error_iff.1 h
    · exact bind_eq_error (hx.error List.not_mem_nil hs q)
    · obtain ⟨t, rfl⟩ := (hf a).left_error hr
      exact bind_eq_error_iff.2 (.inr ⟨a, _, hx.ok_of_left hs q, (hf a).error hd hr q⟩)

theorem Steady.map {f : α → β} (hx : Steady marks x) :
    Steady marks (x >>= fun a => pure (f a)) where
  left h := by
    obtain ⟨a, s', hs, hr⟩ := bind_eq_ok.1 h
    obtain ⟨-, rfl⟩ := pure_eq_ok.1 hr
    exact hx.left hs
  left_error h := by
    obtain hs | ⟨a, s', -, hr⟩ := bind_eq_error_iff.1 h
    · exact hx.left_error hs
    · cases hr
  ok hd h q := by
    obtain ⟨a, s', hs, hr⟩ := bind_eq_ok.1 h
    obtain ⟨rfl, rfl⟩ := pure_eq_ok.1 hr
    exact bind_eq_ok.2 ⟨a, _, hx.ok hd hs q, rfl⟩
  error hd h q := by
    obtain hs | ⟨a, s', -, hr⟩ := bind_eq_error_iff.1 h
    · exact bind_eq_error (hx.error hd hs q)
    · cases hr

theorem Steady.ahead {c : Char} (hx : Steady marks x) (hy : Steady marks y) :
    Steady marks (nextIs c >>= fun b => if b = true then x else y) := by
  have hnext : Steady [] (nextIs c) :=
    { left := fun h => (nextIs_eq_ok.1 h).2 ▸ List.suffix_rfl
      left_error := fun h => nomatch h
      ok := fun _ h q => by
        obtain ⟨rfl, hp⟩ := nextIs_eq_ok.1 h
        obtain rfl := List.append_left_eq_self.1 hp
        rfl
      error := fun _ h => nomatch h }
  refine hnext.bind fun b => ?_
  split_ifs
  · exact hx
  · exact hy

/-- A reader that comes to the same as others, if these are given enough, is steady if they are. -/
theorem steady_of_enough {ys : ℕ → Reader α} (hys : ∀ n, Steady marks (ys n))
    (hx : ∀ {n : ℕ} {s : List Char}, s.length ≤ n → x s = ys n s) : Steady marks x where
  left h := (hys _).left (hx le_rfl ▸ h)
  left_error h := (hys _).left_error (hx le_rfl ▸ h)
  ok {p r d a} hd h q := by
    have hr := hx (Nat.le_max_left (p ++ d :: r).length (p ++ d :: q).length)
    have hq := hx (Nat.le_max_right (p ++ d :: r).length (p ++ d :: q).length)
    rw [hr] at h
    rw [hq]
    exact (hys _).ok hd h q
  error {p r d} hd h q := by
    have hr := hx (Nat.le_max_left (p ++ d :: r).length (p ++ d :: q).length)
    have hq := hx (Nat.le_max_right (p ++ d :: r).length (p ++ d :: q).length)
    rw [hr] at h
    rw [hq]
    exact (hys _).error hd h q

theorem Atomic.steady {L : Language Char} (h : Atomic x) (hx : Viable x L)
    (hok : ∀ {p r : List Char} {d : Char} {a : α}, d ∉ marks → x (p ++ d :: r) = .ok (a, d :: r) →
      ∀ q, x (p ++ d :: q) = .ok (a, d :: q))
    (herror : ∀ {r : List Char} {d : Char}, d ∉ marks → x (d :: r) = .error (d :: r) →
      ∀ q, x (d :: q) = .error (d :: q)) : Steady marks x where
  left := hx.left
  left_error := hx.left_error
  ok := hok
  error hd hr q := by
    obtain rfl := List.append_left_eq_self.1 (h _ _ hr).symm
    exact herror hd hr q

end Monad

section Parts

variable {marks : List Char}

theorem steady_char (c : Char) : Steady marks (char c) := by
  refine (atomic_char c).steady (viable_char c) (fun _ h q => ?_) fun {r d} _ h q => ?_
  · have hp : _ ++ _ = [c] ++ _ := char_eq_ok.1 h
    obtain rfl := (List.append_left_inj _).1 hp
    exact char_eq_ok.2 rfl
  · simp only [char] at h ⊢
    split_ifs at h ⊢
    rfl

theorem steady_blanks : Steady marks blanks := by
  refine Atomic.steady (fun _ _ h => nomatch h) viable_blanks (fun _ h q => ?_) fun _ h => nomatch h
  obtain ⟨t, ht, hblanks, hstop⟩ := blanks_eq_ok.1 h
  obtain rfl := (List.append_left_inj _).1 ht
  exact blanks_eq_ok.2 ⟨_, rfl, hblanks, stops_cons.2 (stops_cons.1 hstop)⟩

theorem steady_gap : Steady marks gap := by
  refine atomic_gap.steady viable_gap (fun _ h q => ?_) fun {r d} _ h q => ?_
  · obtain ⟨t, ht, hblanks, hne, hstop⟩ := gap_eq_ok.1 h
    obtain rfl := (List.append_left_inj _).1 ht
    exact gap_eq_ok.2 ⟨_, rfl, hblanks, hne, stops_cons.2 (stops_cons.1 hstop)⟩
  · simp only [gap] at h ⊢
    split_ifs at h ⊢
    rfl

theorem name_cons_eq_error {d : Char} {r : List Char} :
    name (d :: r) = .error (d :: r) ↔ isLetter d = false := by
  unfold name
  rcases hd : isLetter d with _ | _ <;> simp [hd]

theorem steady_name : Steady marks name := by
  refine atomic_name.steady viable_name (fun _ h q => ?_) fun _ h q => ?_
  · obtain ⟨t, ht, hletters, hne, rfl, hstop⟩ := name_eq_ok.1 h
    obtain rfl := (List.append_left_inj _).1 ht
    exact name_eq_ok.2 ⟨_, rfl, hletters, hne, rfl, stops_cons.2 (stops_cons.1 hstop)⟩
  · exact name_cons_eq_error.2 (name_cons_eq_error.1 h)

theorem quotedRest_broken {p t : List Char} (h : Quoted p t) {d : Char} (hquote : d ≠ '"')
    (hbackslash : d ≠ '\\') (r : List Char) :
    quotedRest (p ++ '\\' :: d :: r) = .error (d :: r) := by
  induction h with
  | nil => simp [quotedRest, hquote, hbackslash]
  | quote _ ih => simp [quotedRest, ih, Except.map]
  | backslash _ ih => simp [quotedRest, ih, Except.map]
  | plain _ h _ ih => simp [quotedRest, h, ih, Except.map]

theorem steady_quotedRest : Steady marks (quotedRest : Reader (List Char)) where
  left := viable_quotedRest.left
  left_error := viable_quotedRest.left_error
  ok {p r d a} _ h q := by
    obtain ⟨t, ht, hquoted⟩ := quotedRest_sound h
    obtain rfl := (List.append_left_inj _).1 (ht.trans (List.append_cons t '"' (d :: r)))
    rw [← List.append_cons]
    exact quotedRest_append hquoted
  error {p r d} _ h q := by
    obtain ⟨t, _, hquoted, ⟨-, hr⟩ | ⟨ht, hstop⟩⟩ := quotedRest_eq_error h
    · cases hr
    · obtain rfl := (List.append_left_inj _).1 (ht.trans (List.append_cons t '\\' (d :: r)))
      have hd : d ≠ '"' ∧ d ≠ '\\' := by simpa using stops_cons.1 hstop
      rw [← List.append_cons]
      exact quotedRest_broken hquoted hd.1 hd.2 q

/-- The characters besides digits that can go on with a number, or begin it. -/
def numberMarks : List Char := ['+', '-', '.', 'e', 'E']

theorem steady_number : Steady numberMarks number := by
  refine atomic_number.steady viable_number (fun {p r d a} hd h q => ?_) fun {r d} hd h q => ?_
  -- behind a numeral stands no digit, and none of the marks that could make it longer
  · unfold number at h
    split at h
    · rename_i l r' hl
      simp only [Except.ok.injEq, Prod.mk.injEq] at h
      obtain ⟨rfl, rfl⟩ := h
      obtain ⟨t, ht, hnumeral⟩ := Literal.numeral_of_read? hl
      obtain rfl := (List.append_left_inj _).1 ht
      have hdigit := stops_cons.1 (Literal.stops_read? hl)
      have hmarks : ¬ (d = '.' ∨ d = 'e' ∨ d = 'E') := by
        rintro (rfl | rfl | rfl) <;> exact hd (by decide)
      rw [not_or] at hmarks
      have hread : Literal.read? (p ++ d :: q) = some (l, d :: q) :=
        Literal.read?_append hnumeral (stops_cons.2 (by simp [hdigit, hmarks.1]))
          (stops_cons.2 (by simpa using hmarks.2))
      simp only [number, hread]
    · cases h
  -- where nothing was read there is no digit, and only a mark could begin a numeral
  · have hnone : Literal.read? (d :: q) = none := by
      by_contra hsome
      obtain ⟨⟨l, r'⟩, hl⟩ := Option.ne_none_iff_exists'.1 hsome
      obtain ⟨t, ht, hnumeral⟩ := Literal.numeral_of_read? hl
      obtain ⟨c, t, rfl, hc⟩ := hnumeral.head
      obtain rfl : d = c := List.head_eq_of_cons_eq ht
      obtain hdigit | rfl | rfl | rfl := hc
      · have hread := Literal.isSome_read?_cons hdigit r
        rw [(number_eq_error h).1] at hread
        contradiction
      all_goals exact hd (by decide)
    simp only [number, hnone]

end Parts

section Tags

variable {marks : List Char}

theorem steady_pair : Steady marks pair :=
  steady_name.bind fun _ => steady_blanks.bind fun _ => (steady_char '=').bind fun _ =>
    steady_blanks.bind fun _ => ((steady_char '"').bind fun _ => steady_quotedRest.bind fun _ =>
      steady_pure _).bind fun _ => steady_pure _

theorem steady_pairs : ∀ (marks : List Char) (n : ℕ), Steady marks (pairs n)
  | _, 0 => Atomic.steady (fun _ _ h => (Except.error.inj h).symm) (viable_pairs 0)
      (fun _ h => nomatch h) fun _ _ _ => rfl
  | _, n + 1 => steady_pair.bind fun _ => .ahead ((steady_char ',').bind fun _ =>
      (steady_pairs [] n).bind fun _ => steady_pure _) (steady_pure _)

theorem pairs_enough :
    ∀ {n m : ℕ} {s : List Char}, s.length ≤ n → s.length ≤ m → pairs n s = pairs m s
  | 0, 0, _, _, _ => rfl
  | 0, _ + 1, [], _, _ => rfl
  | _ + 1, 0, [], _, _ => rfl
  | n + 1, m + 1, s, hn, hm => by
    refine bind_congr fun p s₁ hp => bind_congr fun b s₂ hb => ?_
    obtain ⟨-, rfl⟩ := nextIs_eq_ok.1 hb
    split_ifs
    · refine bind_congr fun _ s₂ hc => bind_congr_left ?_
      obtain rfl := char_eq_ok.1 hc
      have hlen := (viable_pair.left hp).length_le
      rw [List.length_cons] at hlen
      exact pairs_enough (by omega) (by omega)
    · rfl

/-- The pairs of a text are all read if as many are allowed as it has characters. -/
theorem steady_somePairs {α : Type} {f : List (String × String) → Reader α}
    (hf : ∀ ps, Steady marks (f ps)) :
    Steady marks (get >>= fun s => pairs s.length >>= f) :=
  steady_of_enough (fun n => (steady_pairs [] n).bind hf) fun h =>
    bind_congr_left (pairs_enough le_rfl h)

theorem steady_tags : Steady marks tags :=
  (steady_char '[').bind fun _ => .ahead ((steady_char ']').bind fun _ => steady_pure _)
    (steady_somePairs fun _ => (steady_char ']').bind fun _ => steady_pure _)

theorem steady_metric : Steady marks metric :=
  steady_name.bind fun _ => .ahead (steady_tags.bind fun _ => steady_pure _) (steady_pure _)

end Tags

section Commands

theorem steady_setRest : Steady numberMarks setRest :=
  steady_gap.bind fun _ => steady_metric.bind fun _ => steady_blanks.bind fun _ =>
    (steady_char '=').bind fun _ => steady_blanks.bind fun _ => steady_number.map

theorem steady_namedRest {marks : List Char} {f : Metric → Command} :
    Steady marks (namedRest f) :=
  steady_gap.bind fun _ => steady_metric.map

theorem steady_words : ∀ k ∈ words, Steady numberMarks k.2 := by
  simp only [words, List.forall_mem_cons]
  exact ⟨steady_setRest, steady_namedRest, steady_namedRest, steady_pure _, steady_pure _,
    steady_pure _, List.forall_mem_nil _⟩

end Commands

section All

variable {α : Type} {x : Reader α} {marks s p r : List Char} {L : Language Char}

theorem all_eq_error {rest : List Char} :
    x.all s = .error rest ↔ x s = .error rest ∨ ∃ a, x s = .ok (a, rest) ∧ rest ≠ [] := by
  unfold Reader.all
  rcases x s with e | ⟨a, _ | ⟨c, r⟩⟩
  · simp
  · simp
  · refine ⟨fun h => .inr ⟨a, ?_⟩, ?_⟩
    · obtain rfl := Except.error.inj h
      exact ⟨rfl, List.cons_ne_nil c r⟩
    · rintro (h | ⟨a', h, -⟩) <;> cases h
      rfl

theorem Viable.begun_all (h : Viable x L) (hx : x.all s = .error r) :
    ∃ p q, s = p ++ r ∧ p ++ q ∈ L := by
  obtain hx | ⟨a, hx, -⟩ := all_eq_error.1 hx
  · exact h.begun hx
  · obtain ⟨p, rfl, hp⟩ := h.taken hx
    exact ⟨p, [], rfl, by rwa [List.append_nil]⟩

theorem Steady.error_all (h : Steady marks x) {d : Char} (hd : d ∉ marks)
    (hx : x.all (p ++ d :: r) = .error (d :: r)) (q : List Char) :
    x.all (p ++ d :: q) = .error (d :: q) := by
  obtain hx | ⟨a, hx, -⟩ := all_eq_error.1 hx
  · exact all_eq_error.2 (.inl (h.error hd hx q))
  · exact all_eq_error.2 (.inr ⟨a, h.ok hd hx q, List.cons_ne_nil _ _⟩)

end All

section Words

variable {line : List Char}

theorem word_bind {α : Type} {w : String} {f : Unit → Reader α} {s : List Char} :
    (word w >>= f) (w.toList ++ s) = f () s := by
  have hw : word w (w.toList ++ s) = .ok ((), s) := word_eq_ok.2 rfl
  change (word w (w.toList ++ s) >>= fun p => f p.1 p.2) = _
  rw [hw]
  rfl

theorem firstOf_nowhere :
    ∀ {rs : List (Reader Command)} {n : ℕ}, (∀ x ∈ rs, x line = .error line) →
      firstOf line n rs = .error ⟨n⟩
  | [], _, _ => rfl
  | x :: rs, n, h => by
    rw [firstOf_skip (h x List.mem_cons_self)]
    exact firstOf_nowhere fun y hy => h y (List.mem_cons_of_mem x hy)

/-- If the other readings stop at once, the line is what is made of the text behind its word. -/
theorem firstOf_only {x y : Reader Command} {post : List (Reader Command)} {s : List Char}
    (hx : x line = y s) :
    ∀ {pre : List (Reader Command)}, (∀ z ∈ pre ++ post, z line = .error line) →
      firstOf line 0 (pre ++ x :: post)
        = (y.all s).mapError fun rest => ⟨line.length - rest.length⟩
  | [], h => by
    have hall : x.all line = y.all s := by rw [Reader.all, hx, Reader.all]
    rw [List.nil_append, firstOf, hall]
    rcases y.all s with rest | c
    · simp only [Nat.zero_max]
      exact firstOf_nowhere h
    · rfl
  | z :: pre, h => by
    rw [List.cons_append, firstOf_skip (h z List.mem_cons_self)]
    exact firstOf_only hx fun w hw => h w (List.mem_cons_of_mem z hw)

/-- The reading of the commands that begin with a word. -/
def reading (k : String × Reader Command) : Reader Command := word k.1 >>= fun _ => k.2

theorem firstOf_exitCommand {n : ℕ} {rs : List (Reader Command)} :
    firstOf line n (exitCommand :: rs)
      = firstOf line n (reading ("exit", pure .exit) :: reading ("quit", pure .exit) :: rs) := by
  by_cases hq : line.head? = some 'q'
  · have hexit : exitCommand line = reading ("quit", pure .exit) line := by
      change (if decide (line.head? = some 'q') = true then _ else _ : Reader Command) line = _
      rw [if_pos (decide_eq_true hq)]
      rfl
    have hskip : reading ("exit", pure .exit) line = .error line :=
      skip_word (not_prefix_of_head (by decide) (by simp [hq]))
    rw [firstOf_skip hskip, firstOf, firstOf, Reader.all, hexit, Reader.all]
  · have hexit : exitCommand line = reading ("exit", pure .exit) line := by
      change (if decide (line.head? = some 'q') = true then _ else _ : Reader Command) line = _
      rw [if_neg (by simp [hq])]
      rfl
    have hskip : reading ("quit", pure .exit) line = .error line :=
      skip_word (not_prefix_of_head (by decide) (by simpa [eq_comm] using hq))
    rw [firstOf, firstOf, Reader.all, hexit, Reader.all]
    simp only [firstOf_skip hskip]

theorem firstOf_append_congr {rs rs' : List (Reader Command)}
    (h : ∀ n, firstOf line n rs = firstOf line n rs') :
    ∀ (pre : List (Reader Command)) (n : ℕ),
      firstOf line n (pre ++ rs) = firstOf line n (pre ++ rs')
  | [], n => h n
  | x :: pre, n => by
    rw [List.cons_append, List.cons_append, firstOf, firstOf]
    rcases x.all line with rest | c
    · exact firstOf_append_congr h pre _
    · rfl

theorem firstOf_kinds : firstOf line 0 kinds = firstOf line 0 (words.map reading) :=
  firstOf_append_congr (fun _ => firstOf_exitCommand) [setCommand, delCommand, getCommand] 0

theorem words_ne_nil : ∀ k ∈ words, k.1.toList ≠ [] := by simp [words]

theorem pairwise_words :
    words.Pairwise fun k k' => k.1.toList.head? ≠ k'.1.toList.head? := by
  simp [words]

theorem firstOf_word {k : String × Reader Command} (hk : k ∈ words) (s : List Char) :
    firstOf (k.1.toList ++ s) 0 kinds
      = (k.2.all s).mapError fun rest => ⟨(k.1.toList ++ s).length - rest.length⟩ := by
  obtain ⟨pre, post, hsplit⟩ := List.append_of_mem hk
  have hother : ∀ k' ∈ pre ++ post,
      k' ∈ words ∧ k'.1.toList.head? ≠ (k.1.toList ++ s).head? := fun k' hk' => by
    have hhead : (k.1.toList ++ s).head? = k.1.toList.head? :=
      List.head?_append_of_ne_nil _ (words_ne_nil k hk)
    have hapart := hsplit ▸ pairwise_words
    rw [List.pairwise_append, List.pairwise_cons] at hapart
    obtain ⟨-, ⟨hpost, -⟩, hpre⟩ := hapart
    rw [hhead, hsplit]
    rcases List.mem_append.1 hk' with hk' | hk'
    · exact ⟨List.mem_append_left _ hk', hpre k' hk' k List.mem_cons_self⟩
    · exact ⟨List.mem_append_right _ (List.mem_cons_of_mem k hk'), (hpost k' hk').symm⟩
  rw [firstOf_kinds, hsplit, List.map_append, List.map_cons]
  refine firstOf_only word_bind fun z hz => ?_
  rw [← List.map_append] at hz
  obtain ⟨k', hk', rfl⟩ := List.mem_map.1 hz
  exact skip_word (not_prefix_of_head (words_ne_nil k' (hother k' hk').1) (hother k' hk').2)

theorem firstOf_no_word (h : ∀ k ∈ words, ¬ k.1.toList <+: line) :
    firstOf line 0 kinds = .error ⟨0⟩ := by
  rw [firstOf_kinds]
  refine firstOf_nowhere fun x hx => ?_
  obtain ⟨k, hk, rfl⟩ := List.mem_map.1 hx
  exact skip_word (h k hk)

end Words

end Reader

namespace Command

open Reader

variable {line : String} {e : ReadError} {k : String × Reader Command}

theorem read_word (hk : k ∈ words) {s : List Char} (hline : line.toList = k.1.toList ++ s) :
    read line = ((k.2.all s).mapError fun rest => ⟨line.toList.length - rest.length⟩).map some := by
  have hblanks : ¬ Grammar.Blanks line.toList := by
    have hletter : ∀ k ∈ words, ¬ Grammar.Blanks k.1.toList := by simp [words, Grammar.Blanks]
    exact fun hb => hletter k hk fun c hc => hb c (hline ▸ List.mem_append_left s hc)
  rw [read_of_not_blanks hblanks, hline, firstOf_word hk]

theorem column_eq_zero (h : read line = .error e)
    (hno : ∀ k ∈ words, ¬ k.1.toList <+: line.toList) : e.column = 0 := by
  have hblanks : ¬ Grammar.Blanks line.toList := fun hb => by
    rw [read_of_blanks hb] at h
    cases h
  rw [read_of_not_blanks hblanks, firstOf_no_word hno] at h
  cases h
  rfl

/-- A rejected line that begins with a word is rejected where the text behind the word is. -/
theorem exists_rejected (h : read line = .error e) (hk : k ∈ words)
    (hbegins : k.1.toList <+: line.toList) :
    ∃ p rest, line.toList = k.1.toList ++ p ++ rest ∧ e.column = (k.1.toList ++ p).length
      ∧ k.2.all (p ++ rest) = .error rest
      ∧ ∃ q c, Derives (k.1.toList ++ p ++ q) c := by
  obtain ⟨s, hs⟩ := hbegins
  have hread := read_word hk hs.symm
  rw [h] at hread
  rcases hall : k.2.all s with rest | c <;> rw [hall] at hread <;> cases hread
  obtain ⟨p, q, rfl, c, hc⟩ := (viable_words k hk).begun_all hall
  refine ⟨p, rest, ?_, ?_, hall, q, c, ?_⟩
  · rw [← hs, List.append_assoc]
  · dsimp only
    rw [← hs, ← List.append_assoc, List.length_append, Nat.add_sub_cancel]
  · rwa [List.append_assoc]

/-- A line that is rejected can be completed up to its column, and no line is a command or blank
that begins with it up to its column and with one more character, unless a number is begun there.
The column is the first one if the line begins with no word of a command. -/
theorem column_of_error (h : read line = .error e) :
    e.column ≤ line.length
      ∧ (∃ other c, read other = .ok (some c) ∧ line.toList.take e.column <+: other.toList)
      ∧ (e.column = 0 ↔ ∀ w ∈ ["set", "del", "get", "exit", "quit", "help"],
        ¬ w.toList <+: line.toList)
      ∧ (0 < e.column → ∀ d, line.toList[e.column]? = some d → d ∉ ['+', '-', '.', 'e', 'E'] →
        ∀ other : String, line.toList.take (e.column + 1) <+: other.toList →
          ∃ e', read other = .error e') := by
  have hwords : (∀ w ∈ ["set", "del", "get", "exit", "quit", "help"], ¬ w.toList <+: line.toList)
      ↔ ∀ k ∈ words, ¬ k.1.toList <+: line.toList := by
    simp [words]
  refine ⟨column_le h, ?_⟩
  rw [hwords]
  by_cases hno : ∀ k ∈ words, ¬ k.1.toList <+: line.toList
  · have hzero := column_eq_zero h hno
    refine ⟨⟨"exit", .exit, rfl, ?_⟩, iff_of_true hzero hno, fun hpos => ?_⟩
    · rw [hzero, List.take_zero]
      exact List.nil_prefix
    · exact absurd hzero hpos.ne'
  · have hword := hno
    push Not at hword
    obtain ⟨k, hk, hbegins⟩ := hword
    obtain ⟨p, rest, hline, hcolumn, hall, q, c, hc⟩ := exists_rejected h hk hbegins
    refine ⟨⟨.ofList (k.1.toList ++ p ++ q), c, ?_, ?_⟩, iff_of_false ?_ hno, ?_⟩
    · rwa [read_eq_some_iff, String.toList_ofList]
    · rw [hline, hcolumn, List.take_left, String.toList_ofList]
      exact List.prefix_append _ q
    · rw [hcolumn, List.length_append]
      have hlength := List.length_pos_of_ne_nil (words_ne_nil k hk)
      omega
    · intro _ d hd hmarks other hother
      rw [hline, hcolumn, List.getElem?_append_right le_rfl, Nat.sub_self,
        ← List.head?_eq_getElem?] at hd
      obtain ⟨r, rfl⟩ := List.head?_eq_some_iff.1 hd
      rw [hline, hcolumn, List.take_length_add_append] at hother
      obtain ⟨t, ht⟩ := hother
      have hrejected := (steady_words k hk).error_all hmarks hall t
      have hother : other.toList = k.1.toList ++ (p ++ d :: t) := by simp [← ht]
      have hread := read_word hk hother
      rw [hrejected] at hread
      exact ⟨_, hread⟩

/-- Nothing stands between a comma and the next key. -/
theorem column_of_error_comma :
    read "get x[a=\"1\", b=\"2\"]" = .error ⟨12⟩
      ∧ (∃ other c, read other = .ok (some c) ∧ "get x[a=\"1\",".toList <+: other.toList)
      ∧ ∀ other : String, "get x[a=\"1\", ".toList <+: other.toList →
        ∃ e, read other = .error e := by
  have hread : read "get x[a=\"1\", b=\"2\"]" = .error ⟨12⟩ := by decide +kernel
  obtain ⟨-, hbegun, -, hstuck⟩ := column_of_error hread
  exact ⟨hread, hbegun, hstuck (by decide) ' ' (by decide) (by decide)⟩

end Command

end GaugeConsole
