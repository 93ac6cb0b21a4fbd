import GaugeConsole.Program
import GaugeConsole.Proofs.Agreement
import GaugeConsole.Proofs.Failures
import GaugeConsole.Proofs.Reading

/-!
# Undisturbed sessions

In a session of the program only the operator's lines and the refreshes do anything. There the names
that are taken and not held are those of the self metrics, each with an underscore in it, and a name
in a line has letters only. So every value can be set and every family can be let go of, and few
lines fail (`Settings.newSession_lines`).
-/

namespace GaugeConsole

open Grammar

theorem MetricKind.prefix_of_mem_claims {kind : MetricKind} {name n : String}
    (h : n ∈ kind.claims name) : name.toList <+: n.toList := by
  have hself : name.toList <+: name.toList := List.prefix_rfl
  have happend : ∀ ending : String, name.toList <+: (name ++ ending).toList := fun ending => by
    rw [String.toList_append]
    exact List.prefix_append _ _
  cases kind <;> simp only [claims, List.mem_cons, List.not_mem_nil, or_false] at h
  case gauge => exact h ▸ hself
  case counter => rcases h with rfl | rfl | rfl <;> first | exact hself | exact happend _
  case summary => rcases h with rfl | rfl | rfl | rfl <;> first | exact hself | exact happend _
  case histogram =>
    rcases h with rfl | rfl | rfl | rfl | rfl <;> first | exact hself | exact happend _

theorem SelfMetric.stem_prefix {metric : SelfMetric} {stem n : String}
    (h : n ∈ (Collector.self stem metric).claims) : stem.toList <+: n.toList := by
  have hn := MetricKind.prefix_of_mem_claims h
  rw [String.toList_append] at hn
  exact (List.prefix_append _ _).trans hn

def Call.IsOwn : Call → Prop
  | .add .. | .get _ | .remove _ => True
  | .register _ | .unregister _ => False

theorem Command.isOwn_of_call? {command : Command} {call : Call}
    (h : call ∈ command.call?) : call.IsOwn := by
  cases command <;> cases h <;> trivial

namespace Registry

/-- A registry that has its surface to itself, but for collectors that claim no names of letters. -/
structure Undisturbed (r : Registry) : Prop where
  agrees : r.Agrees
  shown : ∀ ⦃n f⦄, r.family? n = some f → f.collector ∈ r.surface.collectors
  marked : ∀ c ∈ r.surface.collectors, ¬ c.IsShell → ∀ n ∈ c.claims, '_' ∈ n.toList

variable {r : Registry} {command : Command} {e : RegistryError}

theorem Undisturbed.after (h : r.Undisturbed) {call : Call} (hcall : call.IsOwn) :
    (r.after call).Undisturbed := by
  have hchange := h.agrees.orderly.change call
  refine { agrees := hchange.agrees h.agrees, shown := fun n f hf => ?_, marked := ?_ }
  · have hbut : r.ShownBut fun _ => False := fun _ _ hk => .inl (h.shown hk)
    obtain hc | hc | ⟨rfl, -⟩ := hchange.shownBut h.agrees.orderly hbut hf
    · exact hc
    · exact hc.elim
    · exact hcall.elim
  · intro c hc hshell
    refine h.marked c (hchange.outsider (fun d hd => ?_) hc hshell) hshell
    rw [hd] at hcall
    exact hcall

theorem Undisturbed.run (calls : List Call) (hcalls : ∀ c ∈ calls, c.IsOwn)
    (h : r.Undisturbed) : (r.run calls).Undisturbed :=
  run_invariant h fun c hc _ hr => hr.after (hcalls c hc)

/-- A name of letters is taken only by the family that is held under it. -/
theorem Undisturbed.free (h : r.Undisturbed) {n : String} (hn : Letters n.toList)
    (hf : r.family? n = none) {c : Collector} (hc : c ∈ r.surface.collectors) : n ∉ c.claims := by
  intro hclaim
  by_cases hshell : c.IsShell
  · obtain ⟨k, f, hk, rfl⟩ := h.agrees.held c hc hshell
    rw [GaugeFamily.collector, Collector.claims, List.mem_singleton,
      (h.agrees.orderly hk).named] at hclaim
    rw [hclaim, hk] at hf
    contradiction
  · have hletter := hn '_' (h.marked c hc hshell n hclaim)
    exact absurd hletter (by decide)

/-- Only lines that look for something fail, and they fail because it is not there. -/
theorem Undisturbed.raises_iff (h : r.Undisturbed) {line : String}
    (hread : Command.read line = .ok (some command)) :
    r.Raises command e ↔
      (∃ m, command = .get m ∧ r.family? m.name = none ∧ e = .metricNotFound m.name)
        ∨ ∃ m f, command = .del m ∧ r.family? m.name = some f
          ∧ f.resolve m.tags ∉ f.series.keys ∧ e = .seriesNotFound m := by
  have hderives := Command.read_eq_some_iff.1 hread
  constructor
  · intro hr
    cases hr with
    | unnamed _ hn => exact absurd hn hderives.letters_set.2
    | taken hf _ hc =>
      obtain ⟨c, hc, hclaim⟩ := hc
      exact absurd hclaim (h.free hderives.letters_set.1 hf hc)
    | unknown hf => exact .inl ⟨_, rfl, hf, rfl⟩
    | missing hf hkey => exact .inr ⟨_, _, rfl, hf, hkey, rfl⟩
    | stuck hf _ hc => exact absurd (h.shown hf) hc
  · rintro (⟨m, rfl, hf, rfl⟩ | ⟨m, f, rfl, hf, hkey, rfl⟩)
    · exact .unknown hf
    · exact .missing hf hkey

end Registry

namespace Console

variable {c : Console} {line : String}

/-- The errors of lines are those of the reader, and the two of commands that look for something. -/
theorem error?_runLine_undisturbed (h : c.registry.Undisturbed) {text : String} :
    (c.runLine line).2.1.error? = some text ↔
      (∃ e, Command.read line = .error e ∧ text = e.message)
        ∨ (∃ m, Command.read line = .ok (some (.get m)) ∧ c.registry.family? m.name = none
          ∧ text = (RegistryError.metricNotFound m.name).message)
        ∨ ∃ m f, Command.read line = .ok (some (.del m)) ∧ c.registry.family? m.name = some f
          ∧ f.resolve m.tags ∉ f.series.keys ∧ text = (RegistryError.seriesNotFound m).message := by
  rw [error?_runLine]
  refine or_congr_right ⟨?_, ?_⟩
  · rintro ⟨command, e, hread, he, rfl⟩
    obtain ⟨m, rfl, hf, rfl⟩ | ⟨m, f, rfl, hf, hkey, rfl⟩ := (h.raises_iff hread).1 he
    · exact .inl ⟨m, hread, hf, rfl⟩
    · exact .inr ⟨m, f, hread, hf, hkey, rfl⟩
  · rintro (⟨m, hread, hf, rfl⟩ | ⟨m, f, hread, hf, hkey, rfl⟩)
    · exact ⟨_, _, hread, .unknown hf, rfl⟩
    · exact ⟨_, _, hread, .missing hf hkey, rfl⟩

theorem runLine_failed_undisturbed (h : c.registry.Undisturbed) {e : RegistryError}
    (ho : (c.runLine line).2.1.failure? = some (.registry e)) :
    (∃ n, e = .metricNotFound n) ∨ ∃ m, e = .seriesNotFound m := by
  obtain ⟨_, -, he⟩ | ⟨command, _, hread, he, heq⟩ := runLine_failed_iff.1 ho
  · cases he
  · cases heq
    obtain ⟨m, -, -, rfl⟩ | ⟨m, _, -, -, -, rfl⟩ := (h.raises_iff hread).1 he
    · exact .inl ⟨m.name, rfl⟩
    · exact .inr ⟨m, rfl⟩

theorem runLine_set_undisturbed (h : c.registry.Undisturbed) {m : Metric} {v : Binary64}
    (hread : Command.read line = .ok (some (.set m v))) :
    (c.runLine line).2.1 = .done ∧ (c.runLine line).1.registry.get m = .ok v := by
  rcases hstep : (c.registry.add m v).2 with e | l
  · have he := (h.raises_iff hread).1 (Registry.add_eq_error_iff.1 hstep)
    simp at he
  · obtain ⟨f, hf, -⟩ := h.agrees.orderly.family?_add hstep
    have hregistry : (c.runLine line).1.registry = (c.registry.add m v).1 := by
      rw [runLine_of_some hread, registry_execute]
      rfl
    refine ⟨?_, ?_⟩
    · rw [runLine_of_some hread]
      exact settle_of_ok hstep
    · rw [hregistry, Registry.get, hf]
      simp [GaugeFamily.read_put]

end Console

/-- A turn of a session that nobody else touches: the next line, or the next step of a refresh. -/
def Turn.own : Option String → Turn
  | some line => .act (.line line)
  | none => .refresh

theorem Turn.isOwn_of_calls {turns : List (Option String)} {call : Call}
    (h : call ∈ ((turns.map own).filterMap act?).flatMap Act.calls) : call.IsOwn := by
  obtain ⟨a, ha, hcall⟩ := List.mem_flatMap.1 h
  obtain ⟨t, ht, hta⟩ := List.mem_filterMap.1 ha
  obtain ⟨_ | line, -, rfl⟩ := List.mem_map.1 ht
  · cases hta
  · obtain rfl : Act.line line = a := Option.some.inj hta
    obtain ⟨command, -, hcommand⟩ := Act.mem_calls_line.1 hcall
    exact Command.isOwn_of_call? hcommand

namespace Settings

variable (settings : Settings) (clock : Clock)

theorem undisturbed_newSession : (settings.newSession clock).console.registry.Undisturbed := by
  have hself : ∀ c ∈ (Surface.ofSelfMetrics SelfMetrics.defaultStem).collectors,
      ∃ k, c = .self SelfMetrics.defaultStem k := fun c hc => by
    obtain ⟨k, -, rfl⟩ := List.mem_map.1 hc
    exact ⟨k, rfl⟩
  have hapart : (Surface.ofSelfMetrics SelfMetrics.defaultStem).Apart := by
    unfold Surface.Apart
    decide +kernel
  unfold newSession
  split_ifs
  · refine { agrees := .start hapart fun c hc => ?_, shown := nofun, marked := ?_ }
    · obtain ⟨k, rfl⟩ := hself c hc
      exact id
    · intro c hc _ n hn
      obtain ⟨k, rfl⟩ := hself c hc
      exact (SelfMetric.stem_prefix hn).subset (by decide +kernel)
  · exact { agrees := .start List.Pairwise.nil nofun, shown := nofun, marked := nofun }

/-- Whatever lines and refreshes there were in a session of the program, a line that sets a series
sets it. A line fails if it is rejected, at a column of its own or behind its end, if it gets a
metric of a name that is not held, or if it deletes a series that is not there under a name that is.
It never fails because the surface refuses something. -/
theorem newSession_lines (turns : List (Option String)) (line : String) :
    let c := (Scene.run ⟨settings.newSession clock, .idle⟩ (turns.map Turn.own)).session.console
    let o := (c.runLine line).2.1
    (∀ text, o.error? = some text ↔
        (∃ e, Command.read line = .error e
          ∧ text = "failed to parse: unexpected input at column " ++ intText (e.column + 1))
        ∨ (∃ m, Command.read line = .ok (some (.get m)) ∧ c.registry.family? m.name = none
          ∧ text = "metric not found: " ++ m.name)
        ∨ ∃ m f, Command.read line = .ok (some (.del m)) ∧ c.registry.family? m.name = some f
          ∧ f.resolve m.tags ∉ f.series.keys ∧ text = "series not found: " ++ m.identity)
      ∧ (∀ e, Command.read line = .error e → 1 ≤ e.column + 1 ∧ e.column + 1 ≤ line.length + 1)
      ∧ (∀ m v, Command.read line = .ok (some (.set m v)) →
        o = .done ∧ (c.runLine line).1.registry.get m = .ok v)
      ∧ (∀ n cause, o.failure? ≠ some (.registry (.registration n cause)))
      ∧ ∀ n, o.failure? ≠ some (.registry (.unregistration n)) := by
  intro c o
  have hr : c.registry.Undisturbed := by
    rw [Scene.registry_run]
    exact (undisturbed_newSession settings clock).run _ fun _ => Turn.isOwn_of_calls
  refine ⟨fun text => Console.error?_runLine_undisturbed hr, fun e he => ⟨by omega, ?_⟩,
    fun m v hread => Console.runLine_set_undisturbed hr hread, fun n cause ho => ?_,
    fun n ho => ?_⟩
  · have hcolumn := Command.column_le he
    omega
  · obtain ⟨_, he⟩ | ⟨_, he⟩ := Console.runLine_failed_undisturbed hr ho <;> cases he
  · obtain ⟨_, he⟩ | ⟨_, he⟩ := Console.runLine_failed_undisturbed hr ho <;> cases he

end Settings

end GaugeConsole
