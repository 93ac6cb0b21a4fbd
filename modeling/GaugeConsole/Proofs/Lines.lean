import GaugeConsole.Proofs.Views

/-!
# Lines as calls

A line makes one call on the registry or none, and a refresh makes none. So whatever happens in a
session, its registry is what the calls make of it (`Scene.registry_run`), and what holds after
calls holds in sessions.
-/

namespace GaugeConsole

/-- The call that a command makes. -/
def Command.call? : Command → Option Call
  | .set m v => some (.add m v)
  | .get m => some (.get m)
  | .del m => some (.remove m)
  | .help | .exit => none

def Act.calls : Act → List Call
  | .line text =>
    match Command.read text with
    | .ok (some command) => command.call?.toList
    | _ => []
  | .call k => [k]

theorem Act.calls_line {text : String} {command : Command}
    (h : Command.read text = .ok (some command)) : (line text).calls = command.call?.toList := by
  simp only [calls, h]

theorem Act.mem_calls_line {text : String} {k : Call} :
    k ∈ (line text).calls
      ↔ ∃ command, Command.read text = .ok (some command) ∧ command.call? = some k := by
  rcases hread : Command.read text with e | _ | command <;> simp [calls, hread]

namespace Console

variable {c : Console} {line : String} {command : Command}
  {step : Registry × Except RegistryError (Option Lifetime)}

theorem runLine_of_error {e : ReadError} (h : Command.read line = .error e) :
    c.runLine line = (c.recordError (Failure.read e).word, .failed (.read e), []) := by
  simp only [runLine, h]

theorem runLine_of_none (h : Command.read line = .ok none) : c.runLine line = (c, .done, []) := by
  simp only [runLine, h]

theorem runLine_of_some (h : Command.read line = .ok (some command)) :
    c.runLine line = c.execute command := by
  simp only [runLine, h]

theorem registry_settle : (c.settle command step).1.registry = step.1 := by
  unfold settle
  split <;> rfl

theorem registry_execute :
    (c.execute command).1.registry = c.registry.run command.call?.toList := by
  cases command with
  | set m v => exact registry_settle
  | del m => exact registry_settle
  | get m =>
    simp only [execute]
    split <;> rfl
  | help => rfl
  | exit => rfl

theorem registry_runLine :
    (c.runLine line).1.registry = c.registry.run (Act.line line).calls := by
  rcases h : Command.read line with e | _ | command
  · rw [runLine_of_error h, Act.calls, h]
    rfl
  · rw [runLine_of_none h, Act.calls, h]
    rfl
  · rw [runLine_of_some h, registry_execute, Act.calls_line h]

theorem registry_doing : ∀ {a : Act}, (c.doing a).registry = c.registry.run a.calls
  | .line _ => registry_runLine
  | .call _ => rfl

theorem registry_doings :
    ∀ (acts : List Act) {c : Console},
      (c.doings acts).registry = c.registry.run (acts.flatMap Act.calls)
  | [], _ => rfl
  | a :: acts, c => by
    rw [List.flatMap_cons, Registry.run_append, ← registry_doing, ← registry_doings acts]
    rfl

end Console

namespace Scene

theorem console_after_refresh (s : Scene) :
    (s.after .refresh).session.console = s.session.console
      ∨ ∃ d n, (s.after .refresh).session.console = s.session.console.traced d n := by
  rcases hp : s.phase with _ | ⟨began, view⟩ | began
  · exact .inl (by rw [s.session_after_idle hp])
  · simp only [after, hp]
    exact .inl rfl
  · simp only [after, hp]
    obtain ⟨d, hd⟩ := Session.account_console s.session began
    exact .inr ⟨d, _, hd⟩

theorem registry_after_refresh (s : Scene) :
    (s.after .refresh).session.console.registry = s.session.console.registry := by
  obtain hc | ⟨d, n, hc⟩ := console_after_refresh s <;> rw [hc]
  exact Console.traced_registry

theorem registry_after_act (s : Scene) (a : Act) :
    (s.after (.act a)).session.console.registry = s.session.console.registry.run a.calls :=
  Console.registry_doing

@[simp] theorem run_cons {s : Scene} {t : Turn} {ts : List Turn} :
    s.run (t :: ts) = (s.after t).run ts := rfl

/-- The registry of a session is what the calls of the operator and of others make of it. -/
theorem registry_run :
    ∀ (turns : List Turn) {s : Scene}, (s.run turns).session.console.registry
      = s.session.console.registry.run ((turns.filterMap Turn.act?).flatMap Act.calls)
  | [], _ => rfl
  | .act a :: ts, s => by
    rw [run_cons, registry_run ts, registry_after_act, ← Registry.run_append]
    rfl
  | .refresh :: ts, s => by
    rw [run_cons, registry_run ts, registry_after_refresh]
    rfl

end Scene

end GaugeConsole
