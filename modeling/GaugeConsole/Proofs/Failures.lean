import GaugeConsole.Proofs.Lines

/-!
# What fails, and what is left then

`Registry.Raises` tells for every command what it fails with, from what is held and what the surface
shows, and nothing else fails (`Console.failures`). A failed command has changed neither the
registry nor the surface, with one exception: a family that the surface would not let go of is
forgotten all the same. A line fails where its command does, or where it is none.
-/

namespace GaugeConsole

namespace Surface

variable {s : Surface} {n : String} {k : ℕ} {e : RegisterError}

/-- A gauge family is refused for its name, if it has none or it is taken. -/
theorem register_shell_eq_error_iff :
    s.register (.shell n k) = .error e ↔
      (n = "" ∧ e = .emptyName)
        ∨ n ≠ "" ∧ (∃ c ∈ s.collectors, n ∈ c.claims) ∧ e = .duplicated [n] := by
  rw [← claims_iff]
  by_cases hn : n = ""
  · subst hn
    have herror : s.register (.shell "" k) = .error .emptyName := by
      simp [register, Collector.claims]
    rw [herror, Except.error.injEq, eq_comm]
    simp
  by_cases hc : s.claims n
  · have herror : s.register (.shell n k) = .error (.duplicated [n]) := by
      simp [register, Collector.claims, hn, hc]
    rw [herror, Except.error.injEq, eq_comm]
    simp [hn, hc]
  · simp [register, Collector.claims, hn, hc]

end Surface

namespace Registry

/-- What a command fails with, given what is held and what the surface shows. -/
inductive Raises (r : Registry) : Command → RegistryError → Prop
  | unnamed {m : Metric} {v : Binary64} : r.family? m.name = none → m.name = "" →
      Raises r (.set m v) (.registration m.name .emptyName)
  | taken {m : Metric} {v : Binary64} : r.family? m.name = none → m.name ≠ "" →
      (∃ c ∈ r.surface.collectors, m.name ∈ c.claims) →
      Raises r (.set m v) (.registration m.name (.duplicated [m.name]))
  | unknown {m : Metric} : r.family? m.name = none → Raises r (.get m) (.metricNotFound m.name)
  | missing {m : Metric} {f : GaugeFamily} : r.family? m.name = some f →
      f.resolve m.tags ∉ f.series.keys → Raises r (.del m) (.seriesNotFound m)
  | stuck {m : Metric} {f : GaugeFamily} : r.family? m.name = some f →
      f.series.keys = [f.resolve m.tags] → f.collector ∉ r.surface.collectors →
      Raises r (.del m) (.unregistration m.name)

/-- What is left of a registry after a failure. Only if the surface did not have the emptied family,
is that family, and no other, gone. -/
def Left (r : Registry) : RegistryError → Registry → Prop
  | .unregistration n, r' => (r.family? n).isSome
      ∧ r'.families.entries = r.families.entries.filter (·.1 ≠ n) ∧ r'.surface = r.surface
      ∧ r'.created = r.created
  | _, r' => r' = r

variable {r : Registry} {m : Metric} {v : Binary64} {e : RegistryError} {command : Command}

theorem raises_set_iff :
    r.Raises (.set m v) e ↔ r.family? m.name = none
      ∧ ∃ x, r.surface.register (r.familyFor m).collector = .error x
        ∧ e = .registration m.name x := by
  constructor
  · intro h
    cases h with
    | unnamed hf hn => exact ⟨hf, _, Surface.register_shell_eq_error_iff.2 (.inl ⟨hn, rfl⟩), rfl⟩
    | taken hf hn hc =>
      exact ⟨hf, _, Surface.register_shell_eq_error_iff.2 (.inr ⟨hn, hc, rfl⟩), rfl⟩
  · rintro ⟨hf, x, hx, rfl⟩
    obtain ⟨hn, rfl⟩ | ⟨hn, hc, rfl⟩ := Surface.register_shell_eq_error_iff.1 hx
    · exact .unnamed hf hn
    · exact .taken hf hn hc

theorem add_eq_error_iff : (r.add m v).2 = .error e ↔ r.Raises (.set m v) e := by
  rw [raises_set_iff]
  obtain ⟨f, hf, heq⟩ | ⟨x, hf, hx, heq⟩ | ⟨s, hf, hs, heq⟩ := add_cases r m v <;> rw [heq]
  · simp [hf]
  · simp [hf, hx, eq_comm]
  · simp [hf, hs]

theorem get_eq_error_iff : r.get m = .error e ↔ r.Raises (.get m) e := by
  rcases hf : r.family? m.name with _ | f
  · simp only [Registry.get, hf, Except.error.injEq]
    constructor
    · rintro rfl
      exact .unknown hf
    · rintro ⟨⟩
      rfl
  · refine iff_of_false (by simp [Registry.get, hf]) fun h => ?_
    cases h with
    | unknown hnone => simp [hf] at hnone

theorem raises_del_iff {f : GaugeFamily} (hf : r.family? m.name = some f) :
    r.Raises (.del m) e ↔
      (f.resolve m.tags ∉ f.series.keys ∧ e = .seriesNotFound m)
        ∨ f.series.keys = [f.resolve m.tags] ∧ f.collector ∉ r.surface.collectors
          ∧ e = .unregistration m.name := by
  constructor
  · intro h
    cases h with
    | missing hsome hkey =>
      obtain rfl := Option.some.inj (hf.symm.trans hsome)
      exact .inl ⟨hkey, rfl⟩
    | stuck hsome hkeys hc =>
      obtain rfl := Option.some.inj (hf.symm.trans hsome)
      exact .inr ⟨hkeys, hc, rfl⟩
  · rintro (⟨hkey, rfl⟩ | ⟨hkeys, hc, rfl⟩)
    · exact .missing hf hkey
    · exact .stuck hf hkeys hc

theorem remove_eq_error_iff : (r.remove m).2 = .error e ↔ r.Raises (.del m) e := by
  obtain ⟨hf, heq⟩ | ⟨f, hf, hcases⟩ := remove_cases r m
  · rw [heq]
    refine iff_of_false (by simp) fun h => ?_
    cases h with
    | missing hsome _ => simp [hf] at hsome
    | stuck hsome _ _ => simp [hf] at hsome
  rw [raises_del_iff hf]
  obtain ⟨hv, heq⟩ | ⟨v, hv, he, heq⟩ | ⟨v, hv, he, hs, heq⟩ | ⟨v, s, hv, he, hs, heq⟩ := hcases <;>
    rw [heq]
  · have hkey : f.resolve m.tags ∉ f.series.keys := by simp [OrderedMap.mem_keys_iff, hv]
    have hkeys : f.series.keys ≠ [f.resolve m.tags] := fun h => hkey (by simp [h])
    simp [hkey, hkeys, eq_comm]
  all_goals
    have hkey : f.resolve m.tags ∈ f.series.keys := by simp [OrderedMap.mem_keys_iff, hv]
    have hkeys : (f.drop m.tags).series.isEmpty ↔ f.series.keys = [f.resolve m.tags] :=
      OrderedMap.isEmpty_erase_iff hkey
  · simp [hkey, ← hkeys, he]
  · have hc : f.collector ∉ r.surface.collectors := fun hc => by
      simp [Surface.unregister_of_mem hc] at hs
    simp [hkeys.1 he, hc, eq_comm]
  · have hc : f.collector ∈ r.surface.collectors := by
      by_contra hc
      simp [Surface.unregister_of_not_mem hc] at hs
    simp [hkey, hc]

theorem left_add (h : (r.add m v).2 = .error e) : r.Left e (r.add m v).1 := by
  obtain ⟨f, -, heq⟩ | ⟨x, -, -, heq⟩ | ⟨s, -, -, heq⟩ := add_cases r m v <;> rw [heq] at h ⊢
  · cases h
  · cases h
    rfl
  · cases h

theorem left_remove (h : (r.remove m).2 = .error e) : r.Left e (r.remove m).1 := by
  obtain ⟨hf, heq⟩ | ⟨f, hf, hcases⟩ := remove_cases r m
  · rw [heq] at h
    cases h
  obtain ⟨-, heq⟩ | ⟨v, -, -, heq⟩ | ⟨v, -, -, -, heq⟩ | ⟨v, s, -, -, -, heq⟩ := hcases <;>
    rw [heq] at h ⊢ <;> cases h
  · rfl
  · exact ⟨by simp [hf], OrderedMap.entries_erase, rfl, rfl⟩

end Registry

theorem append_ne_empty {a b : String} (h : a ≠ "") : a ++ b ≠ "" :=
  fun he => h (String.append_eq_empty_iff.1 he).1

theorem Failure.message_ne_empty : ∀ f : Failure, f.message ≠ ""
  | .read _ => append_ne_empty (by simp)
  | .registry (.metricNotFound _) => append_ne_empty (by simp)
  | .registry (.seriesNotFound _) => append_ne_empty (by simp)
  | .registry (.registration _ _) =>
    append_ne_empty (append_ne_empty (append_ne_empty (by simp)))
  | .registry (.unregistration _) => append_ne_empty (by simp)

/-- An outcome that is one thing at most. -/
inductive Outcome.Single : Outcome → Prop
  | done : Single .done
  | output (text : String) : Single (.output text)
  | failed (failure : Failure) : Single (.failed failure)
  | exit : Single .exit

theorem Outcome.Single.count_le_one {o : Outcome} (h : o.Single) :
    [o.output?.isSome, o.error?.isSome, o.isExit].count true ≤ 1 := by
  cases h <;> simp [Outcome.done, Outcome.output, Outcome.failed, Outcome.exit, error?]

theorem Outcome.Single.eq_failed {o : Outcome} {failure : Failure} (h : o.Single)
    (hfailure : o.failure? = some failure) : o = .failed failure := by
  cases h <;> simp at hfailure
  rw [hfailure]

namespace Console

variable {c : Console} {command : Command} {failure : Failure} {line : String}

theorem single_settle {step : Registry × Except RegistryError (Option Lifetime)} :
    (c.settle command step).2.1.Single := by
  unfold settle
  split
  · exact .done
  · exact .failed _

theorem single_execute : (c.execute command).2.1.Single := by
  unfold execute
  cases command with
  | set m v => exact single_settle
  | del m => exact single_settle
  | get m =>
    dsimp only
    split
    · exact .output _
    · exact .failed _
  | help => exact .output _
  | exit => exact .exit

theorem single_runLine : (c.runLine line).2.1.Single := by
  unfold runLine
  split
  · exact .failed _
  · exact .done
  · exact single_execute

theorem settle_failed_iff {step : Registry × Except RegistryError (Option Lifetime)} :
    (c.settle command step).2.1.failure? = some failure
      ↔ ∃ e, step.2 = .error e ∧ failure = .registry e := by
  unfold settle
  split <;> rename_i h
  · simp [h]
  · simp [h, refuse, eq_comm]

theorem settle_of_ok {step : Registry × Except RegistryError (Option Lifetime)}
    {l : Option Lifetime} (h : step.2 = .ok l) : (c.settle command step).2.1 = .done := by
  rw [settle, h]

/-- A command fails with what its call on the registry fails with. -/
theorem execute_failed_iff :
    (c.execute command).2.1.failure? = some failure
      ↔ ∃ e, c.registry.Raises command e ∧ failure = .registry e := by
  cases command with
  | set m v =>
    simp only [← Registry.add_eq_error_iff]
    exact settle_failed_iff
  | del m =>
    simp only [← Registry.remove_eq_error_iff]
    exact settle_failed_iff
  | get m =>
    have hget : ((c.recordCommand (Command.get m).word).registry).get m = c.registry.get m := rfl
    simp only [← Registry.get_eq_error_iff, execute, hget]
    split <;> rename_i h
    · simp [h]
    · simp [h, refuse, eq_comm]
  | help => exact iff_of_false (by simp [execute]) (by rintro ⟨e, ⟨⟩, -⟩)
  | exit => exact iff_of_false (by simp [execute]) (by rintro ⟨e, ⟨⟩, -⟩)

theorem runLine_failed_iff :
    (c.runLine line).2.1.failure? = some failure
      ↔ (∃ e, Command.read line = .error e ∧ failure = .read e)
        ∨ ∃ command e, Command.read line = .ok (some command) ∧ c.registry.Raises command e
          ∧ failure = .registry e := by
  rcases h : Command.read line with e | _ | command
  · simp [runLine_of_error h, eq_comm]
  · simp [runLine_of_none h]
  · rw [runLine_of_some h, execute_failed_iff]
    simp

theorem error?_runLine {text : String} :
    (c.runLine line).2.1.error? = some text
      ↔ (∃ e, Command.read line = .error e ∧ text = e.message)
        ∨ ∃ command e, Command.read line = .ok (some command) ∧ c.registry.Raises command e
          ∧ text = e.message := by
  rw [Outcome.error?, Option.map_eq_some_iff]
  constructor
  · rintro ⟨failure, ho, rfl⟩
    obtain ⟨e, hread, rfl⟩ | ⟨command, e, hread, he, rfl⟩ := runLine_failed_iff.1 ho
    · exact .inl ⟨e, hread, rfl⟩
    · exact .inr ⟨command, e, hread, he, rfl⟩
  · rintro (⟨e, hread, rfl⟩ | ⟨command, e, hread, he, rfl⟩)
    · exact ⟨.read e, runLine_failed_iff.2 (.inl ⟨e, hread, rfl⟩), rfl⟩
    · exact ⟨.registry e, runLine_failed_iff.2 (.inr ⟨command, e, hread, he, rfl⟩), rfl⟩

theorem error?_runLine_ne_empty : (c.runLine line).2.1.error? ≠ some "" := by
  intro h
  obtain ⟨e, -, he⟩ | ⟨command, e, -, -, he⟩ := error?_runLine.1 h
  · exact (Failure.read e).message_ne_empty he.symm
  · exact (Failure.registry e).message_ne_empty he.symm

theorem left_execute {e : RegistryError} (h : c.registry.Raises command e) :
    c.registry.Left e (c.execute command).1.registry := by
  rw [registry_execute]
  cases command with
  | set m v => exact Registry.left_add (Registry.add_eq_error_iff.2 h)
  | del m => exact Registry.left_remove (Registry.remove_eq_error_iff.2 h)
  | get m =>
    cases h with
    | unknown hf => rfl
  | help => cases h
  | exit => cases h

/-- A console that differs from another only in having counted one more rejected line, if it
counts. -/
def Rejected (c c' : Console) : Prop :=
  c'.registry = c.registry ∧ (c.self = none → c'.self = none)
    ∧ ∀ m, c.self = some m → ∃ errors, c'.self = some { m with commandErrors := errors }
      ∧ ∀ word, errors.get? word =
        if word = "parse" then some ((m.commandErrors.get? "parse").getD 0 + 1)
        else m.commandErrors.get? word

theorem rejected_runLine {e : ReadError} (h : Command.read line = .error e) :
    Rejected c (c.runLine line).1 := by
  rw [runLine_of_error h]
  refine ⟨rfl, fun hself => ?_, fun m hself => ?_⟩
  · simp [recordError, hself]
  · refine ⟨SelfMetrics.tally m.commandErrors "parse", ?_, fun word => OrderedMap.get?_insert⟩
    simp [recordError, hself, SelfMetrics.recordError, Failure.word]

/-- Calls fail as `Registry.Raises` says and leave what `Registry.Left` says. A line comes to one
thing at most. It fails if it is rejected, which changes nothing but how many were, or if its
command fails, and then it says why. -/
theorem failures (c : Console) :
    (∀ m v e, ((c.registry.add m v).2 = .error e ↔ c.registry.Raises (.set m v) e)
        ∧ ((c.registry.add m v).2 = .error e → c.registry.Left e (c.registry.add m v).1))
      ∧ (∀ m e, c.registry.get m = .error e ↔ c.registry.Raises (.get m) e)
      ∧ (∀ m e, ((c.registry.remove m).2 = .error e ↔ c.registry.Raises (.del m) e)
        ∧ ((c.registry.remove m).2 = .error e → c.registry.Left e (c.registry.remove m).1))
      ∧ ∀ line, let c' := (c.runLine line).1; let o := (c.runLine line).2.1
        [o.output?.isSome, o.error?.isSome, o.isExit].count true ≤ 1
          ∧ (∀ text, o.error? = some text ↔
            (∃ e, Command.read line = .error e ∧ text = e.message)
              ∨ ∃ command e, Command.read line = .ok (some command)
                ∧ c.registry.Raises command e ∧ text = e.message)
          ∧ o.error? ≠ some ""
          ∧ (∀ e, Command.read line = .error e → Rejected c c')
          ∧ ∀ command e, Command.read line = .ok (some command) → c.registry.Raises command e →
            c.registry.Left e c'.registry := by
  refine ⟨fun m v e => ⟨Registry.add_eq_error_iff, Registry.left_add⟩,
    fun m e => Registry.get_eq_error_iff,
    fun m e => ⟨Registry.remove_eq_error_iff, Registry.left_remove⟩, fun line => ?_⟩
  refine ⟨single_runLine.count_le_one, fun text => error?_runLine, error?_runLine_ne_empty,
    fun e h => rejected_runLine h, fun command e hread he => ?_⟩
  simp only [runLine_of_some hread]
  exact left_execute he

end Console

end GaugeConsole
