import GaugeConsole.Proofs.Failures
import GaugeConsole.Proofs.Reading
import Mathlib.Algebra.GroupWithZero.Nat

/-!
# What the self metrics count

Whatever else happens in a session, the commands are counted by their words and the failures by
their kinds, each line once (`Scene.run_tallies`): a line is blank and leaves no trace, or it is
rejected, or it is counted as a command, whether or not this fails. Only commands that name a metric
can fail.
-/

namespace GaugeConsole

open Grammar

namespace OrderedMap

variable {κ : Type} [DecidableEq κ]

theorem sum_entries_insert (k : κ) (n : ℕ) :
    ∀ es : List (κ × ℕ), ((Entries.insert k n es).map Prod.snd).sum + (Entries.get? k es).getD 0
      = (es.map Prod.snd).sum + n
  | [] => by simp [Entries.insert, Entries.get?]
  | (j, v) :: es => by
    have ih := sum_entries_insert k n es
    by_cases hj : j = k
    · simp only [Entries.insert, Entries.get?, hj, ↓reduceIte, List.map_cons, List.sum_cons,
        Option.getD_some]
      omega
    · simp only [Entries.insert, Entries.get?, hj, ↓reduceIte, List.map_cons, List.sum_cons]
      omega

theorem sum_values_insert (m : OrderedMap κ ℕ) (k : κ) (n : ℕ) :
    (m.insert k n).values.sum + (m.get? k).getD 0 = m.values.sum + n :=
  sum_entries_insert k n m.entries

end OrderedMap

/-- A tally tells of each word how often it occurs, and of no word that does not. -/
structure Tells (t : OrderedMap String ℕ) (words : List String) : Prop where
  get? : ∀ w, t.get? w = if w ∈ words then some (words.count w) else none
  sum : t.values.sum = words.length

namespace Tells

variable {t : OrderedMap String ℕ} {words : List String}

theorem empty : Tells ∅ [] := ⟨fun _ => rfl, rfl⟩

theorem getD (h : Tells t words) (w : String) : (t.get? w).getD 0 = words.count w := by
  rw [h.get?]
  split_ifs with hw
  · rfl
  · simp [List.count_eq_zero.2 hw]

theorem tally (h : Tells t words) (w : String) :
    Tells (SelfMetrics.tally t w) (words ++ [w]) where
  get? k := by
    rw [SelfMetrics.tally, OrderedMap.get?_insert, h.getD, h.get?]
    by_cases hk : k = w
    · subst hk
      simp [List.count_append]
    · simp [hk, List.count_append, Ne.symm hk]
  sum := by
    have hsum := t.sum_values_insert w ((t.get? w).getD 0 + 1)
    rw [h.sum] at hsum
    rw [SelfMetrics.tally, List.length_append, List.length_singleton]
    omega

end Tells

structure Reply where
  line : String
  outcome : Outcome

namespace Reply

def isBlank (r : Reply) : Bool := r.line.toList.all GaugeConsole.isBlank

def command? (r : Reply) : Option String :=
  match Command.read r.line with
  | .ok (some command) => some command.word
  | _ => none

/-- The kind of failure: the line is no command, or its command came to an error. -/
def failure? (r : Reply) : Option String :=
  match Command.read r.line with
  | .error _ => some "parse"
  | .ok none => none
  | .ok (some _) => if r.outcome.error?.isSome then some "registry" else none

/-- A console could have given the reply. -/
def Genuine (r : Reply) : Prop := ∃ c : Console, r.outcome = (c.runLine r.line).2.1

variable {r : Reply}

theorem isBlank_iff : r.isBlank = true ↔ Command.read r.line = .ok none := by
  rw [Command.read_eq_none_iff, blanks_iff, isBlank, List.all_eq_true]

/-- A line is one of three: blank, a command or rejected. -/
theorem kinds (r : Reply) :
    1 = (if r.isBlank then 1 else 0) + r.command?.toList.length
      + r.failure?.toList.count "parse" := by
  rcases hread : Command.read r.line with e | _ | command
  · have hb : r.isBlank = false := Bool.eq_false_iff.2 fun h => by simp [isBlank_iff.1 h] at hread
    simp [hb, command?, failure?, hread]
  · simp [isBlank_iff.2 hread, command?, failure?, hread]
  · have hb : r.isBlank = false := Bool.eq_false_iff.2 fun h => by simp [isBlank_iff.1 h] at hread
    by_cases ho : r.outcome.error?.isSome <;> simp [hb, command?, failure?, hread, ho]

/-- Only commands that name a metric fail. -/
theorem Genuine.command?_of_failure (h : r.Genuine) (hf : r.failure? = some "registry") :
    r.command? = some "set" ∨ r.command? = some "get" ∨ r.command? = some "del" := by
  obtain ⟨c, ho⟩ := h
  rcases hread : Command.read r.line with e | _ | command
  · simp [failure?, hread] at hf
  · simp [failure?, hread] at hf
  have hsome : r.outcome.error?.isSome := by
    by_contra hnone
    simp [failure?, hread, hnone] at hf
  obtain ⟨text, htext⟩ := Option.isSome_iff_exists.1 hsome
  rw [ho] at htext
  obtain ⟨e, he, -⟩ | ⟨command', e, hread', hraises, -⟩ := Console.error?_runLine.1 htext
  · rw [hread] at he
    cases he
  · obtain rfl : command = command' := by simpa [hread] using hread'
    simp only [command?, hread, Option.some.injEq]
    cases hraises <;> simp [Command.word]

end Reply

theorem length_replies :
    ∀ replies : List Reply, replies.length = replies.countP Reply.isBlank
      + (replies.filterMap Reply.command?).length
      + (replies.filterMap Reply.failure?).count "parse"
  | [] => rfl
  | r :: rs => by
    have ih := length_replies rs
    have hr := r.kinds
    have hcommand : (r :: rs).filterMap Reply.command?
        = r.command?.toList ++ rs.filterMap Reply.command? := by
      cases h : r.command? <;> simp [h]
    have hfailure : (r :: rs).filterMap Reply.failure?
        = r.failure?.toList ++ rs.filterMap Reply.failure? := by
      cases h : r.failure? <;> simp [h]
    rw [hcommand, hfailure, List.countP_cons, List.length_cons, List.length_append,
      List.count_append]
    omega

theorem count_registry_le :
    ∀ {replies : List Reply}, (∀ r ∈ replies, r.Genuine) →
      (replies.filterMap Reply.failure?).count "registry"
        ≤ (replies.filterMap Reply.command?).count "set"
          + (replies.filterMap Reply.command?).count "get"
          + (replies.filterMap Reply.command?).count "del"
  | [], _ => le_rfl
  | r :: rs, h => by
    have ih := count_registry_le fun r' hr' => h r' (List.mem_cons_of_mem r hr')
    have hr := (h r List.mem_cons_self).command?_of_failure
    simp only [List.count_filterMap, List.countP_cons] at ih ⊢
    by_cases hf : r.failure? = some "registry"
    · rcases hr hf with hc | hc | hc <;> simp [hf, hc] <;> omega
    · simp only [hf, beq_iff_eq, ↓reduceIte]
      omega

namespace SelfMetrics

def noted (m : SelfMetrics) (r : Reply) : SelfMetrics :=
  { m with
    commands := r.command?.elim m.commands (tally m.commands)
    commandErrors := r.failure?.elim m.commandErrors (tally m.commandErrors) }

/-- The self metrics tell what came of lines. -/
structure Notes (m : SelfMetrics) (stem : String) (replies : List Reply) : Prop where
  stem : m.stem = stem
  commands : Tells m.commands (replies.filterMap Reply.command?)
  failures : Tells m.commandErrors (replies.filterMap Reply.failure?)

variable {m : SelfMetrics} {stem : String} {replies : List Reply}

theorem notes_start (stem : String) : (start stem).Notes stem [] := ⟨rfl, .empty, .empty⟩

theorem Notes.noted (h : m.Notes stem replies) (r : Reply) :
    (m.noted r).Notes stem (replies ++ [r]) where
  stem := h.stem
  commands := by
    rcases hr : r.command? with _ | w
    · simpa [SelfMetrics.noted, hr] using h.commands
    · simpa [SelfMetrics.noted, hr] using h.commands.tally w
  failures := by
    rcases hr : r.failure? with _ | w
    · simpa [SelfMetrics.noted, hr] using h.failures
    · simpa [SelfMetrics.noted, hr] using h.failures.tally w

theorem mem_tallySamples_iff {name label : String} {t : OrderedMap String ℕ} {smp : Sample} :
    smp ∈ tallySamples name label t ↔
      ∃ w n, t.get? w = some n ∧ smp = ⟨name ++ "_total", [(label, w)], .ofNat n⟩ := by
  simp only [tallySamples, List.mem_map, Prod.exists, OrderedMap.mem_entries_iff, eq_comm]

end SelfMetrics

namespace Console

variable {c : Console} {line : String} {command : Command}

theorem self_settle {step : Registry × Except RegistryError (Option Lifetime)} :
    (c.settle command step).1.self = if (c.settle command step).2.1.error?.isSome
      then c.self.map (·.recordError "registry") else c.self := by
  unfold settle
  split <;> simp [refuse, recordError, Outcome.error?, Failure.word]

theorem self_execute :
    (c.execute command).1.self = if (c.execute command).2.1.error?.isSome
      then (c.recordCommand command.word).self.map (·.recordError "registry")
      else (c.recordCommand command.word).self := by
  cases command with
  | set m v => exact self_settle
  | del m => exact self_settle
  | get m =>
    rcases hget : (c.recordCommand (Command.get m).word).registry.get m with e | v <;>
      simp [execute, hget, refuse, recordError, Outcome.error?, Failure.word]
  | help => simp [execute, Outcome.error?]
  | exit => simp [execute, Outcome.error?]

theorem self_runLine :
    (c.runLine line).1.self = c.self.map (·.noted ⟨line, (c.runLine line).2.1⟩) := by
  rcases hread : Command.read line with e | _ | command
  · rw [runLine_of_error hread]
    simp [recordError, SelfMetrics.noted, SelfMetrics.recordError, Reply.command?, Reply.failure?,
      hread, Failure.word]
  · rw [runLine_of_none hread]
    simp [SelfMetrics.noted, Reply.command?, Reply.failure?, hread]
  · rw [runLine_of_some hread, self_execute]
    by_cases ho : (c.execute command).2.1.error?.isSome <;>
      simp [ho, recordCommand, Function.comp_def, SelfMetrics.noted, SelfMetrics.recordCommand,
        SelfMetrics.recordError, Reply.command?, Reply.failure?, hread]

theorem notes_traced {m : SelfMetrics} {stem : String} {replies : List Reply} {d : Histogram}
    {n : ℕ × ℕ} (hm : c.self = some m) (h : m.Notes stem replies) :
    ∃ m', (c.traced d n).self = some m' ∧ m'.Notes stem replies :=
  ⟨{ m with refreshDuration := d, families := n.1, series := n.2 }, by simp [traced, hm],
    ⟨h.stem, h.commands, h.failures⟩⟩

end Console

def Turn.line? : Turn → Option String
  | .act (.line text) => some text
  | _ => none

namespace Scene

/-- The lines among turns, each with what comes of it. -/
def replies (s : Scene) : List Turn → List Reply
  | [] => []
  | .act (.line text) :: ts =>
    ⟨text, (s.session.console.runLine text).2.1⟩ :: (s.after (.act (.line text))).replies ts
  | .act (.call c) :: ts => (s.after (.act (.call c))).replies ts
  | .refresh :: ts => (s.after .refresh).replies ts

theorem lines_replies :
    ∀ (turns : List Turn) {s : Scene}, (s.replies turns).map Reply.line = turns.filterMap Turn.line?
  | [], _ => rfl
  | .act (.line text) :: ts, _ => congrArg (text :: ·) (lines_replies ts)
  | .act (.call _) :: ts, _ => lines_replies ts
  | .refresh :: ts, _ => lines_replies ts

theorem genuine_replies :
    ∀ (turns : List Turn) {s : Scene}, ∀ r ∈ s.replies turns, r.Genuine
  | [], _, _, hr => absurd hr List.not_mem_nil
  | .act (.line _) :: ts, s, r, hr => by
    rcases List.mem_cons.1 hr with rfl | hr
    · exact ⟨s.session.console, rfl⟩
    · exact genuine_replies ts r hr
  | .act (.call _) :: ts, _, r, hr => genuine_replies ts r hr
  | .refresh :: ts, _, r, hr => genuine_replies ts r hr

theorem notes_run :
    ∀ (turns : List Turn) {s : Scene} {m : SelfMetrics} {stem : String} {replies : List Reply},
      s.session.console.self = some m → m.Notes stem replies →
      ∃ m', (s.run turns).session.console.self = some m'
        ∧ m'.Notes stem (replies ++ s.replies turns)
  | [], _, m, _, _, hm, h => ⟨m, hm, by rwa [replies, List.append_nil]⟩
  | .act (.line text) :: ts, s, m, _, _, hm, h => by
    have hself : (s.after (.act (.line text))).session.console.self
        = some (m.noted ⟨text, (s.session.console.runLine text).2.1⟩) := by
      simp only [after, Console.doing, Console.self_runLine, hm, Option.map_some]
    obtain ⟨m', hm', hnotes⟩ := notes_run ts hself (h.noted _)
    exact ⟨m', hm', by simpa [replies] using hnotes⟩
  | .act (.call _) :: ts, s, m, _, _, hm, h => notes_run ts (s := s.after _) hm h
  | .refresh :: ts, s, m, _, _, hm, h => by
    obtain heq | ⟨d, n, heq⟩ := s.console_after_refresh
    · exact notes_run ts (heq ▸ hm) h
    · obtain ⟨m', hm', h'⟩ := Console.notes_traced (d := d) (n := n) hm h
      exact notes_run ts (heq ▸ hm') h'

/-- In a session with self metrics, whatever its registry, each line that is a command is counted
once under the command's word, and each that fails once under the kind of its failure, and nothing
else is counted or shown. So a line is blank, which changes nothing, or a command, or rejected. -/
theorem run_tallies (registry : Registry) (stem : String) (publisher : Publisher) (clock : Clock)
    (turns : List Turn) :
    let s : Scene := ⟨⟨⟨registry, some (.start stem)⟩, publisher, clock⟩, .idle⟩
    let replies := s.replies turns
    let c := (s.run turns).session.console
    replies.map Reply.line = turns.filterMap Turn.line?
      ∧ (∀ line, Blanks line.toList → c.runLine line = (c, .done, []))
      ∧ ∃ m, c.self = some m
        ∧ Tells m.commands (replies.filterMap Reply.command?)
        ∧ Tells m.commandErrors (replies.filterMap Reply.failure?)
        ∧ (∀ smp, smp ∈ (m.expose .commands).samples ↔ ∃ w n, m.commands.get? w = some n
          ∧ smp = ⟨stem ++ "commands" ++ "_total", [("command", w)], .ofNat n⟩)
        ∧ (∀ smp, smp ∈ (m.expose .commandErrors).samples ↔ ∃ w n, m.commandErrors.get? w = some n
          ∧ smp = ⟨stem ++ "command_errors" ++ "_total", [("kind", w)], .ofNat n⟩)
        ∧ replies.length = replies.countP Reply.isBlank + m.commands.values.sum
          + (m.commandErrors.get? "parse").getD 0
        ∧ (m.commandErrors.get? "registry").getD 0 ≤ (m.commands.get? "set").getD 0
          + (m.commands.get? "get").getD 0 + (m.commands.get? "del").getD 0 := by
  intro s replies c
  obtain ⟨m, hm, hnotes⟩ := notes_run turns (s := s) rfl (SelfMetrics.notes_start stem)
  rw [List.nil_append] at hnotes
  refine ⟨lines_replies turns, fun line hb => ?_, m, hm, hnotes.commands, hnotes.failures,
    fun smp => ?_, fun smp => ?_, ?_, ?_⟩
  · exact Console.runLine_of_none (Command.read_of_blanks hb)
  · rw [← hnotes.stem]
    exact SelfMetrics.mem_tallySamples_iff
  · rw [← hnotes.stem]
    exact SelfMetrics.mem_tallySamples_iff
  · rw [hnotes.commands.sum, hnotes.failures.getD]
    exact length_replies _
  · simp only [hnotes.commands.getD, hnotes.failures.getD]
    exact count_registry_le (genuine_replies turns)

end Scene

end GaugeConsole
