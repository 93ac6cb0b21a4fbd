import GaugeConsole.Files
import GaugeConsole.History
import GaugeConsole.Log

/-!
# The prompt

Where the operator's lines come from. The history is read when the prompt opens and written once,
when it first closes. Trouble with the history file costs the history and nothing else; but the
prompt breaks off when the limit on the history's length is out of range, or when a line or the
name of the file holds a null character.
-/

namespace GaugeConsole

/-- What the first word of a line can be completed to. -/
def commandWords : List String := ["set ", "del ", "get ", "help", "quit", "exit"]

def completions (text : String) : List String := commandWords.filter fun w => w.startsWith text

inductive CompletionError where
  | outOfRange
deriving DecidableEq, Repr

namespace CompletionError

def message : CompletionError → String
  | outOfRange => "list index out of range"

end CompletionError

/-- The completion of a number for the word that begins at a column, if the word is the first one.
A negative number counts from the end and has to be in range. -/
def completion (column : Int) (text : String) (number : Int) :
    Except CompletionError (Option String) :=
  let matching := completions text
  if column ≠ 0 then .ok none
  else if 0 ≤ number then .ok matching[number.toNat]?
  else if -number ≤ matching.length then .ok matching[matching.length - (-number).toNat]?
  else .error .outOfRange

/-- Where the history is kept unless the settings say otherwise: below the cache directory, which
is in the home directory if none is named. -/
def defaultHistoryFile (home : String) (cache : Option String) : String :=
  let home := String.ofList (home.toList.reverse.dropWhile (· = '/')).reverse
  let home := if home.isEmpty then "/" else home
  let cache := match cache with
    | some c => if c.isEmpty then Path.join home ".cache" else c
    | none => Path.join home ".cache"
  Path.join (Path.join cache "gaugeshell") "history"

structure Prompt where
  text : String
  historyFile : String
  historyLength : Int
  /-- What is remembered so far. -/
  history : List String := []
  closed : Bool := false
deriving DecidableEq

inductive PromptError where
  /-- The limit on the history's length is out of range. -/
  | limit
  | nullInLine
  | nullInPath
deriving DecidableEq, Repr

namespace PromptError

def message : PromptError → String
  | limit => "Python int too large to convert to C int"
  | nullInLine => "embedded null character"
  | nullInPath => "embedded null byte"

end PromptError

namespace Prompt

/-- Reads the history. A file that is missing is as good as an empty one. -/
def load (p : Prompt) (files : Files) : Except PromptError (Prompt × Bool × List Record) :=
  if p.historyFile.toList.contains '\x00' then .error .nullInPath
  else
    match files.read p.historyFile with
    | .ok text => .ok ({ p with history := p.history ++ History.ofText text }, true, [])
    | .error e =>
      let record := if e.cause = .missing
        then ⟨.debug, .shell, "No history at " ++ p.historyFile⟩
        else ⟨.warning, .shell,
          "Failed to load history from " ++ p.historyFile ++ ": " ++ e.message⟩
      .ok (p, false, [record])

def remember (p : Prompt) (line : String) : Except PromptError Prompt :=
  if History.isKept line && !History.isEntry line then .error .nullInLine
  else .ok { p with history := History.remember p.history line }

def save (p : Prompt) (files : Files) : Files × Except PromptError (List Record) :=
  let failed := fun (e : FileError) =>
    [⟨.warning, .shell, "Failed to save history to " ++ p.historyFile ++ ": " ++ e.message⟩]
  let (files, prepared) := files.prepare p.historyFile
  match prepared with
  | .error e => (files, .ok (failed e))
  | .ok _ =>
    if History.isLimit p.historyLength then
      match files.write p.historyFile (History.toText p.historyLength p.history) with
      | .ok files => (files, .ok [])
      | .error e => (files, .ok (failed e))
    else (files, .error .limit)

/-- Writes the history unless the prompt was closed before. -/
def close (p : Prompt) (files : Files) : Prompt × Files × Except PromptError (List Record) :=
  if p.closed then (p, files, .ok [])
  else ({ p with closed := true }, p.save files)

/-- What a prompt breaks off with after some trouble. It is closed even then, and trouble at the
closing takes the place of the trouble before. -/
def breakOff (p : Prompt) (files : Files) (e : PromptError) : PromptError :=
  match (p.close files).2.2 with
  | .ok _ => e
  | .error later => later

end Prompt

/-- How the operator's input comes to an end at the prompt. -/
inductive Ending where
  | endOfInput
  | interrupt
deriving DecidableEq, Repr

namespace Ending

def records : Ending → List Record
  | endOfInput => []
  | interrupt => [⟨.info, .shell, "Interrupted"⟩]

end Ending

namespace Prompt

/-- Takes up lines, of which so many come before the prompt is closed, if it is closed among them
at all. -/
def takeLines (p : Prompt) (files : Files) (closing : Option Nat) :
    List String → Except PromptError (Prompt × Files × List Record)
  | [] => .ok (p, files, [])
  | line :: rest => do
    let p ← (p.remember line).mapError (p.breakOff files)
    if closing = some 1 then
      let (p, files, closed) := p.close files
      let log ← closed
      let (p, files, more) ← takeLines p files none rest
      return (p, files, log ++ more)
    else takeLines p files (closing.map (· - 1)) rest

/-- A prompt from its opening to its end: what it shows and reports, and the files afterwards. -/
def session (p : Prompt) (files : Files) (lines : List String) (ending : Ending)
    (closing : Option Nat) : Except PromptError (String × List Record × Files) := do
  let (p, _, opened) ← p.load files
  let (p, files, log) ← p.takeLines files closing lines
  let (_, files, closed) := p.close files
  return (String.join (List.replicate (lines.length + 1) p.text) ++ "\n",
    opened ++ log ++ ending.records ++ (← closed), files)

end Prompt

end GaugeConsole
