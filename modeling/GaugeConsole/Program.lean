import GaugeConsole.Arguments
import GaugeConsole.Prompt
import GaugeConsole.Publisher
import GaugeConsole.Settings

/-!
# The program

A run from the command line to the exit status. The settings are loaded, the metrics are exposed,
and the operator's lines are taken up one after the other until one of them says exit or the input
ends; then the history is saved and the publishing stops. What is written goes to two streams: the
prompts and the results to one, log records and complaints to the other.
-/

namespace GaugeConsole

/-! ## Log records as lines -/

namespace Level

/-- Levels by name. Two of them have a second name, and one name stands for all records. -/
def urgencies : List (String × Nat) :=
  [("CRITICAL", critical.urgency), ("FATAL", critical.urgency), ("ERROR", error.urgency),
    ("WARN", warning.urgency), ("WARNING", warning.urgency), ("INFO", info.urgency),
    ("DEBUG", debug.urgency), ("NOTSET", 0)]

/-- The capital letter of a letter that names of levels may be written with. -/
def capital (c : Char) : Char :=
  if c = 'ı' then 'I' else if c = 'ſ' then 'S' else c.toUpper

/-- How urgent a record has to be to be shown. A name that stands for no level does not matter. -/
def threshold (name : String) : Nat := (urgencies.lookup (name.map capital)).getD info.urgency

end Level

/-- Why the log cannot be set up: the name of the level stands for something else. -/
inductive LevelError where
  /-- The pattern of a log line. -/
  | pattern
  /-- The table of the ways to write patterns. -/
  | styles
deriving DecidableEq, Repr

namespace LevelError

def message : LevelError → String
  | pattern => "Unknown level: '%(levelname)s:%(name)s:%(message)s'"
  | styles => "Level not an integer or a valid string: \x7b"
      ++ "'%': (<class 'logging.PercentStyle'>, '%(levelname)s:%(name)s:%(message)s'), "
      ++ "'\x7b': (<class 'logging.StrFormatStyle'>, "
      ++ "'\x7blevelname\x7d:\x7bname\x7d:\x7bmessage\x7d'), "
      ++ "'$': (<class 'logging.StringTemplateStyle'>, "
      ++ "'$\x7blevelname\x7d:$\x7bname\x7d:$\x7bmessage\x7d')\x7d"

end LevelError

namespace Level

/-- The trouble with a name that stands for something else than a level. -/
def trouble? (name : String) : Option LevelError :=
  [("BASIC_FORMAT", LevelError.pattern), ("_STYLES", .styles)].lookup (name.map capital)

end Level

namespace Record

def line (format : LogFormat) (time : String) (r : Record) : String :=
  match format with
  | .text =>
    let level := String.ofList (r.level.word.toList.rightpad 8 ' ')
    time ++ " | " ++ level ++ " | " ++ r.source.name ++ " | " ++ r.message ++ "\n"
  | .json => "\x7b\"time\": \"" ++ time ++ "\", \"level\": \"" ++ r.level.word
      ++ "\", \"logger\": \"" ++ r.source.name ++ "\", \"message\": \"" ++ r.message ++ "\"\x7d\n"

end Record

namespace LogSettings

/-- The lines of those records that are urgent enough. -/
def lines (s : LogSettings) (time : String) (records : List Record) : String :=
  let shown := records.filter fun r => Level.threshold s.level ≤ r.level.urgency
  String.join (shown.map (·.line s.format time))

end LogSettings

/-! ## A run -/

structure Output where
  standard : String := ""
  error : String := ""
deriving DecidableEq

namespace Output

instance : Append Output := ⟨fun a b => ⟨a.standard ++ b.standard, a.error ++ b.error⟩⟩

end Output

structure Invocation where
  arguments : List String
  overrides : Overrides
  home : String
  cache : Option String
  files : Files
  clock : Clock
  /-- The time that log records carry. -/
  time : String := "1970-01-01 00:00:00"

structure Program where
  settings : Settings
  session : Session
  prompt : Prompt
  files : Files
  time : String

inductive Closing where
  /-- A line says exit. -/
  | exit
  | input (ending : Ending)
  /-- The program is told to terminate. -/
  | terminated
deriving DecidableEq, Repr

namespace Closing

/-- A prompt that no line follows is ended by a line break, unless the program is terminated. -/
def standard : Closing → String
  | exit => ""
  | input _ => "\n"
  | terminated => ""

def records : Closing → List Record
  | exit => []
  | input ending => ending.records
  | terminated => [⟨.info, .main, "Received signal 15, shutting down..."⟩]

end Closing

inductive RunError where
  | level (e : LevelError)
  | prompt (e : PromptError)
  /-- The interval is too long for the publishing to be stopped. -/
  | interval
deriving DecidableEq, Repr

namespace RunError

def message : RunError → String
  | level e => e.message
  | prompt e => e.message
  | interval => WaitError.tooLong.message

end RunError

structure Ended where
  status : Nat
  output : Output
  files : Files
  /-- Where the metrics were exposed, if they were. -/
  served : Option Address := none

namespace Settings

def ofInvocation (i : Invocation) (a : Arguments) : Except SettingsError Settings := do
  let s ← match a.config with
    | none => load i.files none i.overrides
    | some (.text path) => load i.files (some path) i.overrides
    | some .nothing => throw .noPath
  match a.address with
  | none => return s
  | some (.text text) =>
    match s.withAddress text with
    | .ok s => return s
    | .error e => throw (.address e)
  | some .nothing => throw .noAddress

def newPrompt (s : Settings) (home : String) (cache : Option String) : Prompt where
  text := s.prompt.text
  historyFile := (s.prompt.historyFile.filter (!·.isEmpty)).getD (defaultHistoryFile home cache)
  historyLength := s.prompt.historyLength

/-- The console and its publisher before anything is published. -/
def newSession (s : Settings) (clock : Clock) : Session where
  console := if s.exporter.selfMetrics then .monitored SelfMetrics.defaultStem else {}
  publisher := { interval := s.exporter.interval }
  clock := clock

end Settings

namespace Program

def log (p : Program) (records : List Record) : Output :=
  { error := p.settings.log.lines p.time records }

/-- What is reported when listening succeeds or is refused. -/
def listening (s : Settings) (refusal : Option String) : List Record :=
  match refusal with
  | none =>
    [⟨.info, .exporter, "Prometheus exporter listening on " ++ s.exporter.address ++ "/metrics"⟩]
  | some reason => [⟨.error, .exporter, "Failed to start Prometheus HTTP server: " ++ reason⟩,
      ⟨.error, .main, "Failed to start exporter on " ++ s.exporter.address ++ ": " ++ reason⟩]

/-- Publishes a first view and opens the prompt. From here on the refresh loop (`Session.run`) goes
on beside the program, in a thread of its own. What that thread reports, from the start of the loop
on, is left out: the error stream is that of the main thread. -/
def launch (i : Invocation) (s : Settings) : Except PromptError (Program × Output) := do
  let session := ((s.newSession i.clock).refresh).1
  let session := { session with publisher := { session.publisher with running := true } }
  let (prompt, _, opened) ← (s.newPrompt i.home i.cache).load i.files
  let p : Program := ⟨s, session, prompt, i.files, i.time⟩
  return (p, p.log (listening s none ++ opened))

/-- Starts the program, or ends it when there is nothing to run: help was asked for, the command
line or the settings are wrong, or the place to listen at is refused. `refusal` tells the reason
why an address cannot be listened at. -/
def start (i : Invocation) (refusal : Address → Option String) :
    Except RunError (Ended ⊕ (Program × Output)) :=
  let ended := fun (status : Nat) (output : Output) =>
    .ok (.inl ⟨status, output, i.files, none⟩)
  match Arguments.read i.arguments with
  | .error .help => ended 0 { standard := usageText }
  | .error (.error e) => ended 2 { error := e.report }
  | .ok a =>
    match Settings.ofInvocation i a with
    | .error e => ended 1 { error := "Error loading configuration: " ++ e.message ++ "\n" }
    | .ok s =>
      match Level.trouble? s.log.level, refusal s.exporter.endpoint with
      | some e, _ => .error (.level e)
      | none, some reason => ended 1 { error := s.log.lines i.time (listening s (some reason)) }
      | none, none => ((launch i s).map .inr).mapError .prompt

/-- What a program that waits for a line has shown. -/
def ask (p : Program) : Output := { standard := p.prompt.text }

/-- Takes up a line: the program afterwards, what it writes, and whether the line says exit. -/
def feed (p : Program) (line : String) : Except PromptError (Program × Output × Bool) := do
  let prompt ← (p.prompt.remember line).mapError (p.prompt.breakOff p.files)
  let (console, outcome, records) := p.session.console.runLine line
  let warning := outcome.error?.map fun e => (⟨.warning, .main, e⟩ : Record)
  let p := { p with session := { p.session with console := console }, prompt := prompt }
  let result : Output := { standard := (outcome.output?.map (· ++ "\n")).getD "" }
  return (p, result ++ p.log (records ++ warning.toList), outcome.isExit)

def finish (p : Program) (closing : Closing) : Except PromptError Ended := do
  let (_, files, saved) := p.prompt.close p.files
  let records := closing.records ++ (← saved) ++ p.session.stop.2
  let output : Output := { standard := closing.standard }
  return ⟨0, output ++ p.log records, files, some p.settings.exporter.endpoint⟩

/-- Takes up lines until one of them says exit, or to the last of them, after which the input ends
in some way. -/
def serve (p : Program) (closing : Closing) : List String → Except PromptError Ended
  | [] => do
    let e ← p.finish closing
    return { e with output := p.ask ++ e.output }
  | line :: rest => do
    let (q, output, exits) ← p.feed line
    let e ← if exits then q.finish .exit else serve q closing rest
    return { e with output := p.ask ++ output ++ e.output }

/-- Stops the publishing, however the lines came to an end. Trouble with that takes the place of the
trouble before. -/
def conclude (p : Program) (served : Except PromptError Ended) : Except RunError Ended :=
  if p.session.publisher.isPatient then served.mapError .prompt else .error .interval

def run (i : Invocation) (refusal : Address → Option String) (lines : List String)
    (closing : Closing) : Except RunError Ended := do
  match ← start i refusal with
  | .inl ended => return ended
  | .inr (p, output) =>
    let e ← p.conclude (p.serve closing lines)
    return { e with output := output ++ e.output }

end Program

end GaugeConsole
