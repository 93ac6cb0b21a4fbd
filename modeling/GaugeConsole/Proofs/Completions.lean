import GaugeConsole.Proofs.Reading
import Mathlib.Computability.Language

/-!
# What was taken up can be completed

A reader that cannot go on has not gone too far: the characters that it took up begin a text of its
rule (`Reader.Viable`). This is kept when readers follow one another, so it comes down to the
readers of single parts, and it does not matter with which result a part was read.
-/

namespace GaugeConsole

namespace Reader

open Grammar

section Monad

variable {α β : Type}

theorem bind_eq_error_iff {x : Reader α} {f : α → Reader β} {s e : List Char} :
    (x >>= f) s = .error e
      ↔ x s = .error e ∨ ∃ a s', x s = .ok (a, s') ∧ f a s' = .error e := by
  change (x s >>= fun p => f p.1 p.2) = _ ↔ _
  rcases x s with e' | ⟨a, s'⟩
  · simp [bind, Except.bind]
  · simp [bind, Except.bind]

/-- What a reader takes up is a text of a language if it comes to a result, and begins one if it
does not. -/
structure Viable (x : Reader α) (L : Language Char) : Prop where
  inhabited : ∃ t, t ∈ L
  taken : ∀ {s r : List Char} {a : α}, x s = .ok (a, r) → ∃ p, s = p ++ r ∧ p ∈ L
  begun : ∀ {s r : List Char}, x s = .error r → ∃ p q, s = p ++ r ∧ p ++ q ∈ L

variable {x y : Reader α} {L M : Language Char}

theorem Viable.mono (h : Viable x L) (hLM : ∀ t ∈ L, t ∈ M) : Viable x M where
  inhabited := h.inhabited.imp hLM
  taken hx := (h.taken hx).imp fun _ hp => hp.imp_right (hLM _)
  begun hx := (h.begun hx).imp fun _ hp => hp.imp fun _ hq => hq.imp_right (hLM _)

theorem viable_pure (a : α) : Viable (pure a) 1 where
  inhabited := ⟨[], rfl⟩
  taken hx := by
    obtain ⟨-, rfl⟩ := pure_eq_ok.1 hx
    exact ⟨[], rfl, rfl⟩
  begun hx := nomatch hx

theorem Viable.bind [Nonempty α] {f : α → Reader β} (hx : Viable x L)
    (hf : ∀ a, Viable (f a) M) : Viable (x >>= f) (L * M) where
  inhabited := by
    obtain ⟨t, ht⟩ := hx.inhabited
    obtain ⟨u, hu⟩ := (hf (Classical.arbitrary α)).inhabited
    exact ⟨t ++ u, Language.append_mem_mul ht hu⟩
  taken h := by
    obtain ⟨a, s', hs, hr⟩ := bind_eq_ok.1 h
    obtain ⟨t, rfl, ht⟩ := hx.taken hs
    obtain ⟨u, rfl, hu⟩ := (hf a).taken hr
    exact ⟨t ++ u, (List.append_assoc _ _ _).symm, Language.append_mem_mul ht hu⟩
  begun h := by
    obtain hs | ⟨a, s', hs, hr⟩ := bind_eq_error_iff.1 h
    · obtain ⟨p, q, rfl, hq⟩ := hx.begun hs
      obtain ⟨u, hu⟩ := (hf (Classical.arbitrary α)).inhabited
      exact ⟨p, q ++ u, rfl, List.append_assoc p q u ▸ Language.append_mem_mul hq hu⟩
    · obtain ⟨t, rfl, ht⟩ := hx.taken hs
      obtain ⟨p, q, rfl, hq⟩ := (hf a).begun hr
      refine ⟨t ++ p, q, (List.append_assoc _ _ _).symm, ?_⟩
      exact List.append_assoc t p q ▸ Language.append_mem_mul ht hq

/-- To look ahead takes nothing up. -/
theorem Viable.ahead {c : Char} (hx : Viable x L) (hy : Viable y M) :
    Viable (nextIs c >>= fun b => if b = true then x else y) (L + M) where
  inhabited := hx.inhabited.imp fun _ => .inl
  taken h := by
    obtain ⟨b, s, hb, hr⟩ := bind_eq_ok.1 h
    obtain ⟨-, rfl⟩ := nextIs_eq_ok.1 hb
    split_ifs at hr
    · exact (hx.taken hr).imp fun _ hp => hp.imp_right .inl
    · exact (hy.taken hr).imp fun _ hp => hp.imp_right .inr
  begun h := by
    obtain hb | ⟨b, s, hb, hr⟩ := bind_eq_error_iff.1 h
    · cases hb
    obtain ⟨-, rfl⟩ := nextIs_eq_ok.1 hb
    split_ifs at hr
    · exact (hx.begun hr).imp fun _ hp => hp.imp fun _ hq => hq.imp_right .inl
    · exact (hy.begun hr).imp fun _ hp => hp.imp fun _ hq => hq.imp_right .inr

/-- A reader that comes to a result or takes up nothing. -/
def Atomic (x : Reader α) : Prop := ∀ s r, x s = .error r → r = s

theorem Atomic.viable (h : Atomic x) (hL : ∃ t, t ∈ L)
    (htaken : ∀ {s r : List Char} {a : α}, x s = .ok (a, r) → ∃ p, s = p ++ r ∧ p ∈ L) :
    Viable x L where
  inhabited := hL
  taken := htaken
  begun hx := by
    obtain ⟨t, ht⟩ := hL
    obtain rfl := h _ _ hx
    exact ⟨[], t, rfl, ht⟩

end Monad

section Parts

theorem atomic_get : Atomic get := fun _ _ h => nomatch h

theorem viable_get : Viable get 1 := by
  refine atomic_get.viable ⟨[], rfl⟩ fun {s r a} h => ?_
  simp only [get, getThe, MonadStateOf.get, StateT.get, pure, Except.pure, Except.ok.injEq,
    Prod.mk.injEq] at h
  exact ⟨[], h.2, rfl⟩

theorem atomic_char (c : Char) : Atomic (char c) := by
  intro s r h
  rcases s with _ | ⟨d, s⟩
  · simpa [char, eq_comm] using h
  · simp only [char] at h
    split_ifs at h
    exact (Except.error.inj h).symm

theorem viable_char (c : Char) : Viable (char c) {[c]} :=
  (atomic_char c).viable ⟨[c], rfl⟩ fun h => ⟨[c], char_eq_ok.1 h, rfl⟩

theorem viable_blanks : Viable blanks {t | Blanks t} := by
  refine Atomic.viable (fun _ _ h => nomatch h) ⟨[], List.forall_mem_nil _⟩ fun h => ?_
  obtain ⟨t, rfl, ht, -⟩ := blanks_eq_ok.1 h
  exact ⟨t, rfl, ht⟩

theorem atomic_gap : Atomic gap := by
  intro s r h
  rcases s with _ | ⟨c, s⟩
  · simpa [gap, eq_comm] using h
  · simp only [gap] at h
    split_ifs at h
    exact (Except.error.inj h).symm

theorem viable_gap : Viable gap {t | Blanks t ∧ t ≠ []} := by
  refine atomic_gap.viable ⟨[' '], by simp [Blanks], by simp⟩ fun h => ?_
  obtain ⟨t, rfl, ht, hne, -⟩ := gap_eq_ok.1 h
  exact ⟨t, rfl, ht, hne⟩

theorem atomic_name : Atomic name := by
  intro s r h
  unfold name at h
  split at h
  · exact (Except.error.inj h).symm
  · cases h

theorem viable_name : Viable name {t | Letters t ∧ t ≠ []} := by
  refine atomic_name.viable ⟨['x'], by simp [Letters], by simp⟩ fun h => ?_
  obtain ⟨t, rfl, ht, hne, -⟩ := name_eq_ok.1 h
  exact ⟨t, rfl, ht, hne⟩

theorem number_eq_error {s r : List Char} (h : number s = .error r) :
    Literal.read? s = none ∧ r = s := by
  unfold number at h
  split at h
  · cases h
  · exact ⟨‹_›, (Except.error.inj h).symm⟩

theorem atomic_number : Atomic number := fun _ _ h => (number_eq_error h).2

theorem viable_number : Viable number {t | ∃ l, Numeral t l} := by
  have hzero : Mantissa ['0'] ['0'] [] := .whole (by simp [Digits]) (by simp)
  refine atomic_number.viable ⟨['0'], _, .parts .none hzero .none⟩ fun h => ?_
  obtain ⟨t, l, rfl, ht, -⟩ := number_sound h
  exact ⟨t, rfl, l, ht⟩

theorem map_eq_error {x : Except (List Char) (List Char × List Char)} {c : Char} {r : List Char}
    (h : (x.map fun (cs, r) => (c :: cs, r)) = .error r) : x = .error r := by
  rcases x with e | p
  · simpa [Except.map] using h
  · cases h

theorem quoted_append {p q t u : List Char} (h : Quoted p t) (hq : Quoted q u) :
    Quoted (p ++ q) (t ++ u) := by
  induction h with
  | nil => exact hq
  | quote _ ih => exact .quote ih
  | backslash _ ih => exact .backslash ih
  | plain h1 h2 _ ih => exact .plain h1 h2 ih

/-- A text in quotes is broken off at its end, or behind a backslash that escapes nothing. -/
theorem quotedRest_eq_error :
    ∀ {s r : List Char}, quotedRest s = .error r → ∃ p t, Quoted p t
      ∧ (s = p ∧ r = [] ∨ s = p ++ '\\' :: r ∧ Stops (fun c => c = '"' || c = '\\') r) := by
  intro s
  induction s using quotedRest.induct with
  | case1 =>
    intro r h
    obtain rfl : [] = r := by simpa [quotedRest] using h
    exact ⟨[], [], .nil, .inl ⟨rfl, rfl⟩⟩
  | case2 => simp [quotedRest]
  | case3 s ih =>
    intro r h
    obtain ⟨p, t, hp, ⟨rfl, rfl⟩ | ⟨rfl, hr⟩⟩ := ih (map_eq_error (by rwa [quotedRest] at h))
    · exact ⟨_, _, .quote hp, .inl ⟨rfl, rfl⟩⟩
    · exact ⟨_, _, .quote hp, .inr ⟨rfl, hr⟩⟩
  | case4 s ih =>
    intro r h
    obtain ⟨p, t, hp, ⟨rfl, rfl⟩ | ⟨rfl, hr⟩⟩ := ih (map_eq_error (by rwa [quotedRest] at h))
    · exact ⟨_, _, .backslash hp, .inl ⟨rfl, rfl⟩⟩
    · exact ⟨_, _, .backslash hp, .inr ⟨rfl, hr⟩⟩
  | case5 s h1 h2 =>
    intro r h
    rw [quotedRest] at h
    · obtain rfl := Except.error.inj h
      refine ⟨[], [], .nil, .inr ⟨rfl, fun c hc => ?_⟩⟩
      obtain ⟨s', rfl⟩ := List.head?_eq_some_iff.1 hc
      have hquote : c ≠ '"' := fun hc => h1 s' (hc ▸ rfl)
      have hbackslash : c ≠ '\\' := fun hc => h2 s' (hc ▸ rfl)
      simp [hquote, hbackslash]
    all_goals assumption
  | case6 c s h1 h2 h3 h4 ih =>
    intro r h
    rw [quotedRest] at h
    · obtain ⟨p, t, hp, ⟨rfl, rfl⟩ | ⟨rfl, hr⟩⟩ := ih (map_eq_error h)
      · exact ⟨_, _, .plain h1 h4 hp, .inl ⟨rfl, rfl⟩⟩
      · exact ⟨_, _, .plain h1 h4 hp, .inr ⟨rfl, hr⟩⟩
    all_goals assumption

theorem viable_quotedRest :
    Viable (quotedRest : Reader (List Char)) {t | ∃ p cs, Quoted p cs ∧ t = p ++ ['"']} where
  inhabited := ⟨['"'], [], [], .nil, rfl⟩
  taken h := by
    obtain ⟨p, rfl, hp⟩ := quotedRest_sound h
    exact ⟨p ++ ['"'], (List.append_assoc p ['"'] _).symm, p, _, hp, rfl⟩
  begun h := by
    obtain ⟨p, t, hp, ⟨rfl, rfl⟩ | ⟨rfl, -⟩⟩ := quotedRest_eq_error h
    · exact ⟨_, ['"'], (List.append_nil _).symm, _, t, hp, rfl⟩
    · refine ⟨p ++ ['\\'], ['\\', '"'], (List.append_assoc p ['\\'] _).symm, p ++ ['\\', '\\'],
        t ++ ['\\'], quoted_append hp (.backslash .nil), by simp⟩

end Parts

section Tags

theorem viable_pair : Viable pair {t | ∃ p, Pair t p} := by
  refine (viable_name.bind fun key => viable_blanks.bind fun _ => (viable_char '=').bind fun _ =>
    viable_blanks.bind fun _ => ((viable_char '"').bind fun _ => viable_quotedRest.bind fun _ =>
      viable_pure _).bind fun value => viable_pure (key, value)).mono ?_
  rintro _ ⟨k, ⟨hk, hne⟩, _, ⟨a, ha, _, ⟨_, rfl, _, ⟨b, hb, _, ⟨_, ⟨_, rfl, _, ⟨_, ⟨q, t, hq, rfl⟩,
    _, rfl, rfl⟩, rfl⟩, _, rfl, rfl⟩, rfl⟩, rfl⟩, rfl⟩, rfl⟩
  exact ⟨_, by simpa using Pair.parts hk hne ha hb hq⟩

theorem viable_pairs : ∀ n : ℕ, Viable (pairs n) {t | ∃ ps, Pairs t ps}
  | 0 => by
    obtain ⟨t, p, hp⟩ := viable_pair.inhabited
    exact Atomic.viable (fun _ _ h => (Except.error.inj h).symm) ⟨t, [p], .one hp⟩
      fun h => nomatch h
  | n + 1 => by
    refine (viable_pair.bind fun p => .ahead ((viable_char ',').bind fun _ =>
      (viable_pairs n).bind fun ps => viable_pure (p :: ps)) (viable_pure [p])).mono ?_
    rintro _ ⟨t, ⟨p, hp⟩, _, ⟨_, rfl, _, ⟨u, ⟨ps, hps⟩, _, rfl, rfl⟩, rfl⟩ | rfl, rfl⟩
    · exact ⟨p :: ps, by simpa using Pairs.more hp hps⟩
    · exact ⟨[p], by simpa using Pairs.one hp⟩

theorem viable_tags : Viable tags {t | ∃ tags, Bracketed t tags} := by
  refine ((viable_char '[').bind fun _ => .ahead ((viable_char ']').bind fun _ => viable_pure _)
    (viable_get.bind fun s => (viable_pairs s.length).bind fun ps => (viable_char ']').bind fun _ =>
      viable_pure _)).mono ?_
  rintro _ ⟨_, rfl, _, ⟨_, rfl, _, rfl, rfl⟩ |
    ⟨_, rfl, _, ⟨t, ⟨ps, hps⟩, _, ⟨_, rfl, _, rfl, rfl⟩, rfl⟩, rfl⟩, rfl⟩
  · exact ⟨_, .empty⟩
  · exact ⟨_, by simpa using Bracketed.pairs hps⟩

theorem viable_metric : Viable metric {t | ∃ m, Named t m} := by
  refine (viable_name.bind fun _ => .ahead (viable_tags.bind fun _ => viable_pure _)
    (viable_pure _)).mono ?_
  rintro _ ⟨n, ⟨hn, hne⟩, _, ⟨t, ⟨tags, ht⟩, _, rfl, rfl⟩ | rfl, rfl⟩
  · exact ⟨_, by simpa using Named.parts hn hne ht⟩
  · exact ⟨_, .parts hn hne .missing⟩

end Tags

section Commands

/-- What follows the word of a command that sets a value. -/
def setRest : Reader Command := do
  gap
  let m ← metric
  blanks
  char '='
  blanks
  return .set m (← number)

/-- What follows the word of a command that only names a metric. -/
def namedRest (f : Metric → Command) : Reader Command := do
  gap
  return f (← metric)

/-- The words of commands, and what follows each of them. -/
def words : List (String × Reader Command) :=
  [("set", setRest), ("del", namedRest .del), ("get", namedRest .get), ("exit", pure .exit),
    ("quit", pure .exit), ("help", pure .help)]

theorem viable_setRest : Viable setRest {t | ∃ c, Command.Derives ("set".toList ++ t) c} := by
  refine (viable_gap.bind fun _ => viable_metric.bind fun m => viable_blanks.bind fun _ =>
    (viable_char '=').bind fun _ => viable_blanks.bind fun _ => viable_number.bind fun x =>
      viable_pure (Command.set m x)).mono ?_
  rintro _ ⟨g, ⟨hg, hne⟩, _, ⟨s, ⟨m, hm⟩, _, ⟨a, ha, _, ⟨_, rfl, _, ⟨b, hb, _, ⟨t, ⟨l, ht⟩, _,
    rfl, rfl⟩, rfl⟩, rfl⟩, rfl⟩, rfl⟩, rfl⟩
  exact ⟨_, by simpa using Command.Derives.set hg hne hm ha hb ht⟩

theorem viable_namedRest {f : Metric → Command} {w : String}
    (h : ∀ {g s : List Char} {m : Metric}, Blanks g → g ≠ [] → Named s m →
      Command.Derives (w.toList ++ g ++ s) (f m)) :
    Viable (namedRest f) {t | ∃ c, Command.Derives (w.toList ++ t) c} := by
  refine (viable_gap.bind fun _ => viable_metric.bind fun m => viable_pure (f m)).mono ?_
  rintro _ ⟨g, ⟨hg, hne⟩, _, ⟨s, ⟨m, hm⟩, _, rfl, rfl⟩, rfl⟩
  exact ⟨_, by simpa using h hg hne hm⟩

theorem viable_words :
    ∀ k ∈ words, Viable k.2 {t | ∃ c, Command.Derives (k.1.toList ++ t) c} := by
  have hend : ∀ {w : String} {c : Command}, Command.Derives w.toList c →
      Viable (pure c) {t | ∃ c, Command.Derives (w.toList ++ t) c} := fun {w c} h => by
    refine (viable_pure c).mono ?_
    rintro _ rfl
    exact ⟨c, by rwa [List.append_nil]⟩
  simp only [words, List.forall_mem_cons]
  exact ⟨viable_setRest, viable_namedRest .del, viable_namedRest .get, hend .exit, hend .quit,
    hend .help, List.forall_mem_nil _⟩

end Commands

end Reader

end GaugeConsole
