import GaugeConsole.Command.Reader
import GaugeConsole.Registry

/-!
# The console

Lines of the operator's input are read and executed against the registry. A command is counted
before it is executed, and counted again as an error if it fails. A blank line does nothing.
-/

namespace GaugeConsole

inductive Failure where
  | read (error : ReadError)
  | registry (error : RegistryError)
deriving DecidableEq

namespace Failure

def message : Failure → String
  | read e => e.message
  | registry e => e.message

/-- The word under which failures of a kind are counted. -/
def word : Failure → String
  | read _ => "parse"
  | registry _ => "registry"

end Failure

/-- What comes of a line: a text to print, a failure to warn of, and whether it says exit. -/
structure Outcome where
  output? : Option String := none
  failure? : Option Failure := none
  isExit : Bool := false
deriving DecidableEq

namespace Outcome

def done : Outcome := {}

def output (text : String) : Outcome := { output? := some text }

def failed (failure : Failure) : Outcome := { failure? := some failure }

def exit : Outcome := { isExit := true }

/-- The text to warn with. -/
def error? (o : Outcome) : Option String := o.failure?.map Failure.message

@[simp] theorem failure?_done : done.failure? = none := rfl

@[simp] theorem failure?_output {text : String} : (output text).failure? = none := rfl

@[simp] theorem failure?_failed {f : Failure} : (failed f).failure? = some f := rfl

@[simp] theorem failure?_exit : exit.failure? = none := rfl

@[simp] theorem isExit_done : done.isExit = false := rfl

@[simp] theorem isExit_output {text : String} : (output text).isExit = false := rfl

@[simp] theorem isExit_failed {f : Failure} : (failed f).isExit = false := rfl

@[simp] theorem isExit_exit : exit.isExit = true := rfl

end Outcome

def helpText : String := "\n".intercalate [
  "Commands:",
  "  set NAME[TAGS] = VALUE   create or update a gauge series",
  "  get NAME[TAGS]           print the current value of a series",
  "  del NAME[TAGS]           delete a series; the gauge goes away with its last series",
  "  help                     show this text",
  "  exit, quit               leave the shell (Ctrl-D works too)",
  "",
  "NAME and tag keys are letters only. TAGS is optional, with no space after commas:",
  "  [key=\"value\",other=\"value\"]",
  "Inside tag values only \\\" and \\\\ are escapes.",
  "",
  "The first set of a name fixes its tag keys. Later commands on that name",
  "must use the same keys; a missing key is treated as \"\" so different",
  "tag sets may end up on the same series.",
  "",
  "Examples:",
  "  set requests[method=\"GET\",path=\"/\"] = 42",
  "  get requests[method=\"GET\",path=\"/\"]",
  "  del requests[method=\"GET\",path=\"/\"]"]

namespace Metric

/-- All parts of a metric, its tags in the order in which they were given. -/
def description (m : Metric) : String :=
  let tag := fun (p : String × String) => quoted p.1 ++ ": " ++ quoted p.2
  "Metric(name=" ++ quoted m.name ++ ", tags=\x7b"
    ++ ", ".intercalate (m.tags.entries.map tag) ++ "\x7d)"

end Metric

namespace Command

/-- All parts of a command. -/
def description : Command → String
  | set m value => "SetCommand(metric=" ++ m.description ++ ", value=" ++ value.toText ++ ")"
  | get m => "GetCommand(metric=" ++ m.description ++ ")"
  | del m => "DelCommand(metric=" ++ m.description ++ ")"
  | help => "HelpCommand()"
  | exit => "ExitCommand()"

end Command

/-- The registry, and the self metrics if the program keeps them. -/
structure Console where
  registry : Registry := {}
  self : Option SelfMetrics := none
deriving DecidableEq

namespace Console

/-- A console that exposes self metrics under a stem. -/
def monitored (stem : String) : Console where
  registry := { surface := .ofSelfMetrics stem }
  self := some (.start stem)

def recordCommand (c : Console) (word : String) : Console :=
  { c with self := c.self.map (·.recordCommand word) }

def recordError (c : Console) (word : String) : Console :=
  { c with self := c.self.map (·.recordError word) }

def refuse (c : Console) (command : Command) (e : RegistryError) :
    Console × Outcome × List Record :=
  (c.recordError (Failure.registry e).word, .failed (.registry e),
    [⟨.debug, .interpreter, "Command " ++ command.description ++ " failed: " ++ e.message⟩])

def settle (c : Console) (command : Command)
    (step : Registry × Except RegistryError (Option Lifetime)) : Console × Outcome × List Record :=
  let c := { c with registry := step.1 }
  match step.2 with
  | .ok lifetime => (c, .done, (lifetime.map Lifetime.record).toList)
  | .error e => c.refuse command e

def execute (c : Console) (command : Command) : Console × Outcome × List Record :=
  let c := c.recordCommand command.word
  match command with
  | .set m value => c.settle command (c.registry.add m value)
  | .del m => c.settle command (c.registry.remove m)
  | .get m =>
    match c.registry.get m with
    | .ok value => (c, .output value.concise, [])
    | .error e => c.refuse command e
  | .help => (c, .output helpText, [])
  | .exit => (c, .exit, [])

def runLine (c : Console) (line : String) : Console × Outcome × List Record :=
  match Command.read line with
  | .error e => (c.recordError (Failure.read e).word, .failed (.read e), [])
  | .ok none => (c, .done, [])
  | .ok (some command) => c.execute command

/-- What a scrape of the live surface would see. -/
def snapshot (c : Console) : Except CollectError (List MetricFamily) := c.registry.snapshot c.self

end Console

end GaugeConsole
