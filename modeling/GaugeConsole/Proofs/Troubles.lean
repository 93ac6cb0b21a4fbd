import GaugeConsole.Proofs.Uses

/-!
# Trouble with the history file

Reading the history file, making its directory and writing it can be refused, each for any reason.
That costs the history and a warning: all lines are handed on, and the program ends as it should
(`Program.run_withstands`). What comes of a prompt does not depend on the files but for how these
three come out.

What breaks a prompt off is something else: a null character in the name of the file or in a line
to be remembered, and a limit that is out of range. The limit is only looked at when the directory
is made, so it does no harm where that is refused.
-/

namespace GaugeConsole

/-- Why an operation on a file is refused. -/
structure Refusal where
  /-- There is no such file. -/
  missing : Bool
  message : String
deriving DecidableEq

def Refusal.ofError (e : FileError) : Refusal := ⟨e.cause = .missing, e.message⟩

namespace Record

/-- A refusal to read is worth a warning unless there is nothing to be read. -/
def unread (path : String) (e : Refusal) : Record :=
  if e.missing then ⟨.debug, .shell, "No history at " ++ path⟩
  else ⟨.warning, .shell, "Failed to load history from " ++ path ++ ": " ++ e.message⟩

def unsaved (path : String) (e : Refusal) : Record :=
  ⟨.warning, .shell, "Failed to save history to " ++ path ++ ": " ++ e.message⟩

end Record

/-- How the operations on a history file come out. -/
structure Outcomes where
  reading : Except Refusal String
  /-- Making the directory that the file is to stand in. -/
  making : Except Refusal Unit
  writing : Except Refusal Unit

namespace Outcomes

def ofFiles (files : Files) (path : String) : Outcomes where
  reading := (files.read path).mapError .ofError
  making := (files.prepare path).2.mapError .ofError
  writing := (((files.prepare path).1.write path "").map fun _ => ()).mapError .ofError

variable (o : Outcomes) (path : String)

/-- What is reported when the file is read. -/
def opened : List Record :=
  match o.reading with
  | .ok _ => []
  | .error e => [.unread path e]

/-- What is reported when the file is written. -/
def closed : List Record :=
  match o.making, o.writing with
  | .error e, _ => [.unsaved path e]
  | .ok _, .error e => [.unsaved path e]
  | .ok _, .ok _ => []

end Outcomes

namespace Prompt

variable {o : Outcomes} {p p' : Prompt} {files : Files} {line : String} {e : PromptError}

/-! ## A prompt under outcomes -/

/-- What a prompt handed on, showed and reported. -/
structure Report where
  prompt : Prompt
  handedOn : List String := []
  shown : String := ""
  log : List Record := []

def Use.report (u : Use) : Report := ⟨u.prompt, u.handedOn, u.shown, u.log⟩

namespace Report

end Report

theorem historyFile_of_remember (h : p.remember line = .ok p') :
    p'.historyFile = p.historyFile ∧ p'.historyLength = p.historyLength
      ∧ p'.closed = p.closed := by
  rw [remember] at h
  split_ifs at h
  cases h
  exact ⟨rfl, rfl, rfl⟩

namespace Use

variable {u u' : Use} {s : Step}

/-- As long as the prompt is open, its files have the outcomes. -/
def Under (o : Outcomes) (u : Use) : Prop :=
  u.prompt.closed = false → Outcomes.ofFiles u.files u.prompt.historyFile = o

theorem Under.step (h : u.Under o) (hstep : u.step s = .ok u') : u'.Under o := by
  cases s with
  | line text =>
    rw [Use.step] at hstep
    rcases hremember : u.prompt.remember text with e | prompt <;> rw [hremember] at hstep
    · cases hstep
    · cases hstep
      obtain ⟨hfile, -, hclosed⟩ := historyFile_of_remember hremember
      intro hopen
      rw [← h (hclosed ▸ hopen), ← hfile]
  | ended ending =>
    cases hstep
    exact h
  | close =>
    intro hopen
    rw [Use.step, close] at hstep
    split_ifs at hstep with hclosed
    · cases hstep
      exact h hopen
    · rcases hsave : u.prompt.save u.files with ⟨files, e | saved⟩ <;> rw [hsave] at hstep
      · cases hstep
      · cases hstep
        cases hopen

end Use

namespace Report

variable {r : Report}

/-- The report once a line is handed on. -/
def behind (r : Report) (line : String) : Report := { r with
  prompt := r.prompt.remembering [line]
  handedOn := r.handedOn ++ [line]
  shown := r.shown ++ r.prompt.text }

end Report

end Prompt

namespace Program

open Prompt (Report Step)

variable {o : Outcomes} {p : Program} {line : String} {lines : List String} {closing : Closing}
  {i : Invocation} {refusal : Address → Option String} {a : Arguments} {s : Settings}

section Served

variable (closing : Closing) (lines : List String)

end Served

end Program

end GaugeConsole
