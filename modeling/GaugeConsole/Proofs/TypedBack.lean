import GaugeConsole.Proofs.NumberTexts
import GaugeConsole.Proofs.RoundTrip

/-!
# What is shown can be typed

The text that a line shows for a finite value can be typed as a value again, and is then the same
number. Everything that a session holds is a number, so whatever is shown of a series is such a text
or an infinity, and to set a series to what it shows changes nothing (`Scene.run_types_back`).
-/

namespace GaugeConsole

open Grammar

namespace Binary64

/-- What can be told of the text of a finite double of so many units. -/
structure TypesBack (x : Binary64) (units : ℕ) : Prop where
  numeral : ∃ l, Numeral x.concise.toList l
  /-- Typed as a value it is the same number, and the same double unless it is a zero. -/
  read : ∃ y, Command.read ("set x = " ++ x.concise) = .ok (some (.set ⟨"x", {}⟩ y))
    ∧ x.le y ∧ y.le x ∧ (units ≠ 0 → y = x)
  /-- It has neither a point nor a power of ten exactly if it is a whole number up to 2⁵³. -/
  whole : Whole x.concise.toList ↔ one ∣ units ∧ units ≤ 2 ^ 53 * one
  broken : ¬ (one ∣ units ∧ units ≤ 2 ^ 53 * one) → '.' ∈ x.concise.toList ∨ 'e' ∈ x.concise.toList

variable {s : Bool} {u : ℕ} {h : u < limit} {p : Precise u}

theorem types_back : (finite s u h p).TypesBack u where
  numeral := by
    obtain ⟨l, hl, -⟩ := numeral_concise (s := s) (h := h) (p := p)
    exact ⟨l, hl⟩
  read := by
    obtain ⟨l, hl, hvalue⟩ := numeral_concise (s := s) (h := h) (p := p)
    obtain ⟨t, v, h', p', hshown, hsigned⟩ := exists_shown (s := s) (h := h) (p := p)
    have hx : Named ['x'] ⟨"x", {}⟩ :=
      .parts (n := ['x']) (by simp [Letters]) (by simp) .missing
    have hline : Command.Derives ("set x = " ++ (finite s u h p).concise).toList
        (.set ⟨"x", {}⟩ l.value) := by
      rw [String.toList_append]
      exact .set (g := [' ']) (a := [' ']) (b := [' ']) (by simp [Blanks]) (by simp) hx
        (by simp [Blanks]) (by simp [Blanks]) hl
    rw [hvalue] at hline
    refine ⟨_, Command.read_eq_some_iff.2 hline, ?_, ?_, shown_of_ne_zero⟩
    · rw [hshown, le_finite_iff, hsigned]
    · rw [hshown, le_finite_iff, hsigned]
  whole := whole_concise_iff
  broken := point_or_power_concise

theorem zero_ne_nan : zero ≠ .nan := ofUnits_ne_nan

theorem concise_infinite (s : Bool) :
    (infinite s).concise = "inf" ∨ (infinite s).concise = "-inf" := by
  cases s
  · exact .inl (by decide +kernel)
  · exact .inr (by decide +kernel)

end Binary64

theorem Literal.value_ne_nan (l : Literal) : l.value ≠ .nan := Decimal.toBinary64_ne_nan _ _

namespace Registry

variable {r : Registry} {call : Call}

/-- All values that are held are numbers. -/
def Numeric (r : Registry) : Prop :=
  ∀ ⦃n f⦄, r.family? n = some f → ∀ t, f.series.get? t ≠ some .nan

theorem numeric_put {f : GaugeFamily} {tags : Tags} {v : Binary64}
    (hf : ∀ t, f.series.get? t ≠ some .nan) (hv : v ≠ .nan) (t : List String) :
    (f.put tags v).series.get? t ≠ some .nan := by
  rw [GaugeFamily.put, OrderedMap.get?_insert]
  split_ifs
  · exact fun heq => hv (Option.some.inj heq)
  · exact hf t

theorem numeric_drop {f : GaugeFamily} {tags : Tags} (hf : ∀ t, f.series.get? t ≠ some .nan)
    (t : List String) : (f.drop tags).series.get? t ≠ some .nan := by
  rw [GaugeFamily.drop, OrderedMap.get?_erase]
  split_ifs
  · exact nofun
  · exact hf t

theorem Numeric.add (h : r.Numeric) {m : Metric} {v : Binary64} (hv : v ≠ .nan) :
    (r.add m v).1.Numeric := by
  obtain ⟨f, hf, heq⟩ | ⟨e, -, -, heq⟩ | ⟨s, hf, -, heq⟩ := add_cases r m v <;> rw [heq]
  · exact fun n g hg => forall_hold h (numeric_put (h hf) hv) hg
  · exact h
  · exact fun n g hg =>
      forall_hold (r := r.grown s) h (numeric_put (fun t => by simp [familyFor]) hv) hg

theorem Numeric.remove (h : r.Numeric) {m : Metric} : (r.remove m).1.Numeric := by
  obtain ⟨-, heq⟩ | ⟨f, hf, hcases⟩ := remove_cases r m
  · rw [heq]
    exact h
  obtain ⟨-, heq⟩ | ⟨v, -, -, heq⟩ | ⟨v, -, -, -, heq⟩ | ⟨v, s, -, -, -, heq⟩ := hcases <;> rw [heq]
  · exact h
  · exact fun n g hg => forall_hold h (numeric_drop (h hf)) hg
  · exact fun n g hg => forall_forget h hg
  · exact fun n g hg => forall_forget h hg

theorem Numeric.after (h : r.Numeric) (hcall : ∀ m, call ≠ .add m .nan) :
    (r.after call).Numeric := by
  cases call with
  | add m v => exact h.add fun hv => hcall m (hv ▸ rfl)
  | remove m => exact h.remove
  | get m => exact h
  | register c => exact h
  | unregister c => exact h

theorem Numeric.run (calls : List Call) (hcalls : ∀ m, Call.add m .nan ∉ calls)
    (h : r.Numeric) : (r.run calls).Numeric :=
  run_invariant h fun _ hc _ hr => hr.after fun m hm => hcalls m (hm ▸ hc)

theorem Numeric.read (h : r.Numeric) {f : GaugeFamily} {n : String} (hf : r.family? n = some f)
    (tags : Tags) : f.read tags ≠ .nan := by
  rw [GaugeFamily.read]
  rcases hv : f.series.get? (f.resolve tags) with _ | v
  · exact Binary64.zero_ne_nan
  · exact fun heq => h hf _ (hv.trans (congrArg some heq))

/-- To set a series to the value that it has changes nothing. -/
theorem add_of_get? (ho : r.Orderly) {m : Metric} {f : GaugeFamily} {v : Binary64}
    (hf : r.family? m.name = some f) (hv : f.series.get? (f.resolve m.tags) = some v) :
    r.add m v = (r, .ok none) := by
  have hput : f.put m.tags v = f := by
    rw [GaugeFamily.put, OrderedMap.insert_of_get? hv]
  rw [Registry.add, hf]
  dsimp only
  rw [hput, ho.hold_of_family? hf]

end Registry

theorem Command.Derives.value_ne_nan {line : List Char} {m : Metric} {v : Binary64}
    (h : Derives line (.set m v)) : v ≠ .nan := by
  cases h with
  | set => exact Literal.value_ne_nan _

theorem Act.not_mem_calls {a : Act} (ha : ∀ m, a ≠ .call (.add m .nan)) (m : Metric) :
    Call.add m .nan ∉ a.calls := by
  intro hm
  cases a with
  | call k => exact ha m (congrArg Act.call (List.mem_singleton.1 hm).symm)
  | line text =>
    obtain ⟨command, hread, hcommand⟩ := Act.mem_calls_line.1 hm
    cases command with
    | set m' v =>
      cases hcommand
      exact (Command.read_eq_some_iff.1 hread).value_ne_nan rfl
    | _ => cases hcommand

namespace Console

variable {c : Console}

/-- What can be told of the values that a console holds and shows. -/
structure TypesBack (c : Console) : Prop where
  numeric : c.registry.Numeric
  printed : ∀ line m text, Command.read line = .ok (some (.get m)) →
    (c.runLine line).2.1.output? = some text →
    text = "inf" ∨ text = "-inf" ∨ ∃ s u h p, text = (Binary64.finite s u h p).concise
  /-- To show a series and then set it to what is shown leaves the registry as it is. -/
  restored : ∀ (m : Metric) (f : GaugeFamily) s u h p, m.Lettered →
    c.registry.family? m.name = some f →
    f.series.get? (f.resolve m.tags) = some (.finite s u h p) → u ≠ 0 →
    ∀ g t g' t' a b : List Char, m.Written t → m.Written t' → Blanks g → g ≠ [] → Blanks g' →
      g' ≠ [] → Blanks a → Blanks b →
      let get := String.ofList ("get".toList ++ g ++ t)
      let set := fun text : String =>
        String.ofList ("set".toList ++ g' ++ t' ++ a ++ '=' :: b ++ text.toList)
      ∃ text, (c.runLine get).2.1 = .output text
        ∧ ((c.runLine get).1.runLine (set text)).2 = (.done, [])
        ∧ ((c.runLine get).1.runLine (set text)).1.registry = c.registry

theorem runLine_of_add_eq {line : String} {m : Metric} {v : Binary64}
    (hread : Command.read line = .ok (some (.set m v)))
    (hadd : c.registry.add m v = (c.registry, .ok none)) :
    (c.runLine line).2 = (.done, []) ∧ (c.runLine line).1.registry = c.registry := by
  have hadd' : (c.recordCommand (Command.set m v).word).registry.add m v
      = (c.registry, .ok none) := hadd
  rw [runLine_of_some hread]
  simp only [execute, settle, hadd', and_true]
  rfl

theorem types_back (ho : c.registry.Orderly) (hn : c.registry.Numeric) : c.TypesBack where
  numeric := hn
  printed line m text hread hout := by
    rcases hf : c.registry.family? m.name with _ | f
    · have hget : c.registry.get m = .error (.metricNotFound m.name) := by rw [Registry.get, hf]
      have hfailure := runLine_failed_iff.2
        (.inr ⟨_, _, hread, Registry.get_eq_error_iff.1 hget, rfl⟩)
      rw [single_runLine.eq_failed hfailure] at hout
      cases hout
    · rw [runLine_get hread hf] at hout
      obtain rfl := Option.some.inj hout
      rcases hv : f.read m.tags with ⟨s, u, h, p⟩ | s | _
      · exact .inr (.inr ⟨s, u, h, p, rfl⟩)
      · exact (Binary64.concise_infinite s).imp_right .inl
      · exact absurd hv (hn.read hf m.tags)
  restored m f s u h p hm hf hv hu g t g' t' a b ht ht' hg hne hg' hne' ha hb := by
    intro get set
    obtain ⟨tags, htags, hget⟩ := read_get hm ht hg hne
    obtain ⟨l, hl, hvalue⟩ := Binary64.numeral_concise (s := s) (h := h) (p := p)
    obtain ⟨tags', htags', hset⟩ := read_set hm ht' hg' hne' ha hb hl
    have hresolve : ∀ tags : Tags, (∀ k, tags.get? k = m.tags.get? k) →
        f.series.get? (f.resolve tags) = some (.finite s u h p) := fun tags htags => by
      have hkey : f.resolve tags = f.resolve m.tags :=
        GaugeFamily.resolve_eq_iff.2 fun k _ => by rw [htags]
      rw [hkey, hv]
    have hshown : f.read tags = .finite s u h p := by
      rw [GaugeFamily.read, hresolve tags htags]
      rfl
    have hregistry : (c.runLine get).1.registry = c.registry := by
      rw [registry_runLine, Act.calls_line hget]
      rfl
    have hadd : (c.runLine get).1.registry.add ⟨m.name, tags'⟩ l.value
        = ((c.runLine get).1.registry, .ok none) := by
      rw [hregistry, hvalue, Binary64.shown_of_ne_zero hu]
      exact Registry.add_of_get? ho hf (hresolve tags' htags')
    obtain ⟨hdone, hsame⟩ := runLine_of_add_eq hset hadd
    refine ⟨(Binary64.finite s u h p).concise, ?_, hdone, hsame.trans hregistry⟩
    rw [runLine_get hget hf, hshown]

end Console

namespace Scene

/-- The text of a finite value can be typed as the same number, and different numbers have different
texts. Whatever lines and others do in a session, as long as nobody else sets a value that is not a
number, it holds numbers only and shows them with such texts or as infinite, and to type what was
shown of a series, and is not zero, changes nothing. -/
theorem run_types_back (surface : Surface) (self : Option SelfMetrics) (publisher : Publisher)
    (clock : Clock) (turns : List Turn) (hturns : ∀ m, .act (.call (.add m .nan)) ∉ turns) :
    (∀ s u h p, (Binary64.finite s u h p).TypesBack u)
      ∧ (∀ s u h p t v h' p',
        (Binary64.finite s u h p).concise = (Binary64.finite t v h' p').concise →
          (Binary64.finite s u h p).le (.finite t v h' p')
            ∧ (Binary64.finite t v h' p').le (.finite s u h p))
      ∧ (Scene.run ⟨⟨{ registry := { surface := surface }, self := self }, publisher, clock⟩, .idle⟩
        turns).session.console.TypesBack := by
  refine ⟨fun s u h p => Binary64.types_back, fun s u h p t v h' p' heq => ?_, ?_⟩
  · have hsigned := Binary64.signed_eq_of_concise heq
    exact ⟨Binary64.le_finite_iff.2 hsigned.le, Binary64.le_finite_iff.2 hsigned.ge⟩
  · refine Console.types_back ?_ ?_ <;> rw [registry_run]
    · exact (Registry.orderly_start surface).run _
    · refine Registry.Numeric.run _ (fun m hm => ?_) fun n f hf => nomatch hf
      obtain ⟨a, ha, hm⟩ := List.mem_flatMap.1 hm
      obtain ⟨t, ht, hta⟩ := List.mem_filterMap.1 ha
      refine Act.not_mem_calls (fun m' hm' => hturns m' ?_) m hm
      cases t with
      | refresh => cases hta
      | act a' =>
        cases hta
        exact hm' ▸ ht

/-- Somebody else takes a name, and a large number is typed in one way and shown in another. -/
theorem run_types_back_large :
    let turns : List Turn := [.act (.call (.register ⟨.ofForeign .counter "y" "", id⟩)),
      .act (.line "set x[a=\"1\"] = 10000e+18"), .refresh, .act (.line "set y = 1"),
      .act (.line "set x[b=\"1\"] = -0")]
    let c := (Scene.run ⟨⟨{ registry := { surface := {} }, self := none }, { interval := .zero },
      .steady .zero⟩, .idle⟩ turns).session.console
    let get := "get x[a=\"1\"]"
    (∀ m, .act (.call (.add m .nan)) ∉ turns)
      ∧ (c.runLine get).2.1 = .output "1e+22"
      ∧ ((c.runLine get).1.runLine "set x[a=\"1\"] = 1e+22").2 = (.done, [])
      ∧ ((c.runLine get).1.runLine "set x[a=\"1\"] = 1e+22").1.registry = c.registry := by
  intro turns c get
  let m : Metric := ⟨"x", .ofList [("a", "1")]⟩
  let v : Binary64 := .finite false (10 ^ 22 <<< 1074) (by decide +kernel) (by decide +kernel)
  have hturns : ∀ m, .act (.call (.add m .nan)) ∉ turns := by simp [turns]
  have hheld : (c.registry.family? m.name).bind (fun f => f.series.get? (f.resolve m.tags))
      = some v := by
    decide +kernel
  obtain ⟨f, hf, hv⟩ := Option.bind_eq_some_iff.1 hheld
  have hm : m.Lettered := ⟨⟨by simp [m, Letters], by simp [m]⟩, fun k hk => by
    obtain rfl : k = "a" := by simpa using (show k ∈ ["a"] from hk)
    exact ⟨by simp [Letters], by simp⟩⟩
  have hblank : Blanks [' '] := by simp [Blanks]
  have hwritten : m.Written (m.name.toList
      ++ '[' :: WrittenTag.texts [⟨("a", "1"), [], []⟩] ++ [']']) :=
    .tagged .rfl (by simp [Blanks])
  have hback : c.TypesBack :=
    (run_types_back {} none { interval := .zero } (.steady .zero) turns hturns).2.2
  have hout : (c.runLine get).2.1 = .output "1e+22" := by decide +kernel
  clear_value c
  obtain ⟨text, hshown, hdone, hsame⟩ := hback.restored m f _ _ _ _ hm hf hv (by decide +kernel)
    [' '] _ [' '] _ [' '] [' '] hwritten hwritten hblank (by simp) hblank (by simp) hblank hblank
  have hget : String.ofList ("get".toList ++ [' '] ++ (m.name.toList
      ++ '[' :: WrittenTag.texts [⟨("a", "1"), [], []⟩] ++ [']'])) = get := by decide +kernel
  rw [hget] at hshown hdone hsame
  obtain rfl := Option.some.inj (congrArg Outcome.output? (hshown.symm.trans hout))
  have hset : String.ofList ("set".toList ++ [' '] ++ (m.name.toList
      ++ '[' :: WrittenTag.texts [⟨("a", "1"), [], []⟩] ++ [']']) ++ [' '] ++ '=' :: [' ']
      ++ "1e+22".toList) = "set x[a=\"1\"] = 1e+22" := by decide +kernel
  beta_reduce at hdone hsame
  rw [hset] at hdone hsame
  exact ⟨hturns, hout, hdone, hsame⟩

end Scene

end GaugeConsole
