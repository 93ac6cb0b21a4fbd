import GaugeConsole.Proofs.HistoryFiles
import GaugeConsole.Proofs.Runs

/-!
# The use of a prompt

A prompt is opened, lines come, the input ends, and it is closed at any time and any number of
times, the last time when it is left (`Prompt.use`). All lines are handed on, and the history file
is written once, at the first closing: behind what was in it there are the lines up to then that are
neither blank nor begin with a space, and of all that the last ones up to the limit
(`Prompt.use_saves`).

A line that is to be remembered and holds a null character breaks the use off.
-/

namespace GaugeConsole

namespace Prompt

/-- What can happen to a prompt that is open. -/
inductive Step where
  | line (text : String)
  | ended (ending : Ending)
  | close
deriving DecidableEq

/-- A prompt and what has come of it: the files, the lines that it handed on, what it showed and
what it reported. -/
structure Use where
  prompt : Prompt
  files : Files
  handedOn : List String := []
  shown : String := ""
  log : List Record := []

namespace Use

def step (u : Use) : Step → Except PromptError Use
  | .line text => do
    let prompt ← (u.prompt.remember text).mapError (u.prompt.breakOff u.files)
    return { u with
      prompt := prompt, handedOn := u.handedOn ++ [text], shown := u.shown ++ u.prompt.text }
  | .ended ending => return { u with
      shown := u.shown ++ u.prompt.text ++ "\n", log := u.log ++ ending.records }
  | .close => do
    let (prompt, files, closed) := u.prompt.close u.files
    return { u with prompt := prompt, files := files, log := u.log ++ (← closed) }

end Use

/-- What comes of a prompt that is opened and not left yet. -/
def useSoFar (p : Prompt) (files : Files) (steps : List Step) : Except PromptError Use := do
  let (prompt, _, opened) ← p.load files
  steps.foldlM Use.step { prompt := prompt, files := files, log := opened }

/-- A prompt from its opening to when it is left, which closes it. -/
def use (p : Prompt) (files : Files) (steps : List Step) : Except PromptError Use :=
  p.useSoFar files (steps ++ [.close])

/-- The lines that come. -/
def taken (steps : List Step) : List String :=
  steps.filterMap fun
    | .line text => some text
    | _ => none

/-- The lines that come before the first closing. -/
def inTime (steps : List Step) : List String := taken (steps.takeWhile (· ≠ .close))

/-- The lines that are remembered of those that come before the first closing. -/
def remembered (steps : List Step) : List String := (inTime steps).filter History.isKept

section Steps

variable {steps : List Step} {line : String}

@[simp] theorem taken_line : taken (.line line :: steps) = line :: taken steps := rfl

theorem taken_append_close : taken (steps ++ [.close]) = taken steps := by
  simp [taken]

@[simp] theorem inTime_nil : inTime [] = [] := rfl

@[simp] theorem inTime_line : inTime (.line line :: steps) = line :: inTime steps := by
  simp [inTime, taken]

@[simp] theorem inTime_close : inTime (.close :: steps) = [] := by
  simp [inTime, taken]

theorem mem_taken_of_mem_remembered (h : line ∈ remembered steps) :
    line ∈ taken steps ∧ History.isKept line := by
  obtain ⟨hline, hkept⟩ := List.mem_filter.1 h
  exact ⟨((List.takeWhile_sublist _).filterMap _).subset hline, hkept⟩

end Steps

variable {p : Prompt} {files : Files} {steps : List Step}

theorem breakOff_eq (hlimit : History.isLimit p.historyLength) (e : PromptError) :
    p.breakOff files e = e := by
  rcases hclosed : p.closed with _ | _
  · exact breakOff_of_isLimit hclosed hlimit e
  · simp [breakOff, close, hclosed]

/-- What is read is behind what was remembered before, and it is nothing if there is no file that
can be read. -/
theorem load_entries (files : Files) (hpath : '\x00' ∉ p.historyFile.toList) :
    ∃ found opened, p.load files
      = .ok ({ p with history := p.history ++ files.entries p.historyFile }, found, opened) := by
  have hcontains : p.historyFile.toList.contains '\x00' = false := by simpa using hpath
  rw [load, hcontains, Files.entries]
  rcases files.read p.historyFile with e | text
  · simp only [List.append_nil]
    exact ⟨_, _, rfl⟩
  · exact ⟨_, _, rfl⟩

theorem save_of_writable (hpath : files.Writable p.historyFile)
    (hlimit : History.isLimit p.historyLength) :
    ∃ g, p.save files = (g, .ok [])
      ∧ g.read p.historyFile = .ok (History.toText p.historyLength p.history) := by
  obtain ⟨g, g', hprepare, hwrite⟩ :=
    hpath.exists_write (History.toText p.historyLength p.history)
  refine ⟨g', ?_, Files.read_of_write hwrite⟩
  simp only [save, hprepare, hlimit, hwrite, ↓reduceIte]

namespace Use

variable {u : Use} {line : String}

/-- The files once the prompt is closed. -/
def settled (u : Use) : Files := (u.prompt.close u.files).2.1

/-- The same, but that the prompt has remembered some more lines. -/
def remembering (u : Use) (lines : List String) : Use :=
  { u with prompt := u.prompt.remembering lines }

theorem settled_of_closed (h : u.prompt.closed) : u.settled = u.files := by
  rw [settled, close, if_pos h]

theorem settled_of_open (h : u.prompt.closed = false) :
    u.settled = (u.prompt.save u.files).1 := by
  rw [settled, close, h]
  rfl

theorem step_line (h : History.isKept line → History.isEntry line) :
    u.step (.line line) = .ok { u.remembering [line] with
      handedOn := u.handedOn ++ [line], shown := u.shown ++ u.prompt.text } := by
  rw [step, remember_eq h]
  rfl

theorem step_line_eq_error (hlimit : History.isLimit u.prompt.historyLength)
    (hkept : History.isKept line) (hentry : History.isEntry line = false) :
    u.step (.line line) = .error .nullInLine := by
  rw [step, remember_eq_error hkept hentry]
  simp only [Except.mapError, breakOff_eq hlimit]
  rfl

/-- Closing a prompt settles the files, and closing it again changes nothing. -/
theorem step_close (hlimit : History.isLimit u.prompt.historyLength) :
    ∃ saved, u.step .close = .ok { u with
      prompt := { u.prompt with closed := true }, files := u.settled, log := u.log ++ saved } := by
  rcases hclosed : u.prompt.closed with _ | _
  · obtain ⟨g, saved, hsave⟩ := save_of_isLimit u.files hlimit
    refine ⟨saved, ?_⟩
    rw [settled_of_open hclosed, step, close, hclosed, hsave]
    rfl
  · refine ⟨[], ?_⟩
    have hprompt : { u.prompt with closed := true } = u.prompt := by rw [← hclosed]
    rw [settled_of_closed hclosed, step, close, hclosed, hprompt]
    rfl

theorem files_of_step : ∀ {s : Step} {u' : Use}, s ≠ .close → u.step s = .ok u' →
    u'.files = u.files
  | .line line, u', _, h => by
    rw [step] at h
    rcases hremember : u.prompt.remember line with e | prompt <;> rw [hremember] at h
    · cases h
    · cases h
      rfl
  | .ended _, _, _, h => by
    cases h
    rfl
  | .close, _, hs, _ => absurd rfl hs

theorem files_of_foldlM_step : ∀ {steps : List Step} {u u' : Use}, .close ∉ steps →
    steps.foldlM step u = .ok u' → u'.files = u.files
  | [], _, _, _, h => by
    cases h
    rfl
  | s :: steps, u, u', hs, h => by
    rw [List.mem_cons, not_or] at hs
    rw [List.foldlM_cons] at h
    rcases hstep : u.step s with e | v <;> rw [hstep] at h
    · cases h
    · exact (files_of_foldlM_step hs.2 h).trans (files_of_step (Ne.symm hs.1) hstep)

/-- Whatever happens to a prompt, the files will be settled as if it were closed behind the lines
that come in time. -/
theorem foldlM_step : ∀ (steps : List Step) {u : Use},
    History.isLimit u.prompt.historyLength →
    (∀ line ∈ taken steps, History.isKept line → History.isEntry line) →
    ∃ u', steps.foldlM step u = .ok u' ∧ u'.handedOn = u.handedOn ++ taken steps
      ∧ History.isLimit u'.prompt.historyLength
      ∧ u'.settled = if u.prompt.closed then u.files else (u.remembering (inTime steps)).settled
  | [], u, hlimit, _ => by
    refine ⟨u, rfl, by simp [taken], hlimit, ?_⟩
    split_ifs with hclosed
    · exact settled_of_closed hclosed
    · simp [remembering, Prompt.remembering]
  | .line line :: steps, u, hlimit, h => by
    obtain ⟨u', hrun, hhanded, hlimit', hsettled⟩ := foldlM_step steps
      (u := { u.remembering [line] with
        handedOn := u.handedOn ++ [line], shown := u.shown ++ u.prompt.text })
      hlimit fun l hl => h l (List.mem_cons_of_mem _ hl)
    refine ⟨u', ?_, by simpa using hhanded, hlimit', ?_⟩
    · rw [List.foldlM_cons, step_line (h line List.mem_cons_self)]
      exact hrun
    · rw [hsettled, inTime_line]
      simp only [remembering, Prompt.remembering_append, List.singleton_append, settled]
      rfl
  | .ended e :: steps, u, hlimit, h => foldlM_step steps
      (u := { u with shown := u.shown ++ u.prompt.text ++ "\n", log := u.log ++ e.records })
      hlimit h
  | .close :: steps, u, hlimit, h => by
    obtain ⟨saved, hclose⟩ := step_close hlimit
    obtain ⟨u', hrun, hhanded, hlimit', hsettled⟩ := foldlM_step steps
      (u := { u with
        prompt := { u.prompt with closed := true }, files := u.settled, log := u.log ++ saved })
      hlimit h
    refine ⟨u', ?_, hhanded, hlimit', ?_⟩
    · rw [List.foldlM_cons, hclose]
      exact hrun
    · rw [hsettled, inTime_close, if_pos rfl]
      split_ifs with hclosed
      · exact settled_of_closed hclosed
      · simp [remembering, Prompt.remembering]

theorem foldlM_step_eq_error : ∀ (steps : List Step) {u : Use},
    History.isLimit u.prompt.historyLength →
    (∃ line ∈ taken steps, History.isKept line ∧ History.isEntry line = false) →
    steps.foldlM step u = .error .nullInLine
  | [], _, _, h => by simp [taken] at h
  | .line line :: steps, u, hlimit, ⟨l, hl, hkept, hentry⟩ => by
    rw [List.foldlM_cons]
    by_cases hline : History.isKept line → History.isEntry line
    · -- the one that cannot be remembered comes later
      have hne : l ≠ line := by
        rintro rfl
        simp [hline hkept] at hentry
      rw [step_line hline]
      exact foldlM_step_eq_error steps hlimit
        ⟨l, (List.mem_cons.1 hl).resolve_left hne, hkept, hentry⟩
    · rw [Classical.not_imp, Bool.not_eq_true] at hline
      rw [step_line_eq_error hlimit hline.1 hline.2]
      rfl
  | .ended e :: steps, u, hlimit, h => foldlM_step_eq_error steps
      (u := { u with shown := u.shown ++ u.prompt.text ++ "\n", log := u.log ++ e.records })
      hlimit h
  | .close :: steps, u, hlimit, h => by
    obtain ⟨saved, hclose⟩ := step_close hlimit
    rw [List.foldlM_cons, hclose]
    exact foldlM_step_eq_error steps hlimit h

end Use

theorem files_of_useSoFar {u : Use} (hsteps : .close ∉ steps)
    (h : p.useSoFar files steps = .ok u) : u.files = files := by
  rw [useSoFar] at h
  rcases hload : p.load files with e | ⟨prompt, found, opened⟩ <;> rw [hload] at h
  · cases h
  · exact Use.files_of_foldlM_step hsteps h

theorem use_eq_ok (files : Files) (hopen : p.closed = false)
    (hpath : '\x00' ∉ p.historyFile.toList) (hlimit : History.isLimit p.historyLength)
    (h : ∀ line ∈ taken steps, History.isKept line → History.isEntry line) :
    ∃ u, p.use files steps = .ok u ∧ u.handedOn = taken steps
      ∧ u.files = (({ p with history :=
        p.history ++ files.entries p.historyFile ++ remembered steps } : Prompt).save files).1 := by
  obtain ⟨found, opened, hload⟩ := load_entries files hpath
  let start : Use := ⟨{ p with history := p.history ++ files.entries p.historyFile }, files, [], "",
    opened⟩
  obtain ⟨u, hrun, hhanded, hlimit', hsettled⟩ := Use.foldlM_step steps (u := start) hlimit h
  obtain ⟨saved, hclose⟩ := Use.step_close hlimit'
  have hopen' : start.prompt.closed = false := hopen
  have hopen'' : (start.remembering (inTime steps)).prompt.closed = false := hopen
  rw [hopen', if_neg Bool.false_ne_true, Use.settled_of_open hopen''] at hsettled
  refine ⟨{ u with
    prompt := { u.prompt with closed := true }, files := u.settled, log := u.log ++ saved },
    ?_, hhanded, hsettled⟩
  rw [use, useSoFar, hload]
  change (steps ++ [Step.close]).foldlM Use.step start = _
  rw [List.foldlM_append, hrun]
  change [Step.close].foldlM Use.step u = _
  rw [List.foldlM_cons, hclose]
  rfl

theorem use_eq_error (hpath : '\x00' ∉ p.historyFile.toList)
    (hlimit : History.isLimit p.historyLength)
    (h : ∃ line ∈ taken steps, History.isKept line ∧ History.isEntry line = false) :
    p.use files steps = .error .nullInLine := by
  obtain ⟨found, opened, hload⟩ := load_entries files hpath
  rw [use, useSoFar, hload]
  exact Use.foldlM_step_eq_error _ hlimit (by rwa [taken_append_close])

/-! ## Sessions -/

/-- Lines with a closing behind so many of them. -/
def closingBehind : Option ℕ → List String → List Step
  | _, [] => []
  | closing, line :: rest =>
    if closing = some 1 then .line line :: .close :: closingBehind none rest
    else .line line :: closingBehind (closing.map (· - 1)) rest

theorem text_of_remember {p' : Prompt} {line : String} (h : p.remember line = .ok p') :
    p'.text = p.text := by
  rw [remember] at h
  split_ifs at h
  cases h
  rfl

theorem text_close (p : Prompt) (files : Files) : (p.close files).1.text = p.text := by
  rw [close]
  split_ifs <;> rfl

theorem text_of_takeLines : ∀ (lines : List String) {p : Prompt} {files : Files}
    {closing : Option ℕ} {r : Prompt × Files × List Record},
    p.takeLines files closing lines = .ok r → r.1.text = p.text
  | [], p, _, _, r, h => by
    rw [takeLines] at h
    cases h
    rfl
  | line :: rest, p, files, closing, r, h => by
    rw [takeLines] at h
    rcases hremember : p.remember line with e | prompt <;>
      simp only [hremember, Except.mapError, bind, Except.bind] at h
    · cases h
    have htext := text_of_remember hremember
    split_ifs at h
    · rcases hclosed : (prompt.close files).2.2 with e | saved <;> simp only [hclosed] at h
      · cases h
      rcases hrest : takeLines (prompt.close files).1 (prompt.close files).2.1 none rest
        with e | r' <;> simp only [hrest] at h
      · cases h
      · cases h
        exact (text_of_takeLines rest hrest).trans ((text_close _ _).trans htext)
    · exact (text_of_takeLines rest h).trans htext

namespace Use

/-- A use after lines that a prompt took up, with what it is then, the files and the records. -/
def behind (u : Use) (lines : List String) (r : Prompt × Files × List Record) : Use where
  prompt := r.1
  files := r.2.1
  handedOn := u.handedOn ++ lines
  shown := u.shown ++ String.join (List.replicate lines.length u.prompt.text)
  log := u.log ++ r.2.2

variable {u : Use} {line : String} {lines lines' : List String} {prompt prompt' : Prompt}
  {files files' : Files} {log log' : List Record}

theorem behind_behind (h : prompt.text = u.prompt.text) :
    (u.behind lines (prompt, files, log)).behind lines' (prompt', files', log')
      = u.behind (lines ++ lines') (prompt', files', log ++ log') := by
  simp only [behind, h, List.length_append, List.replicate_add, String.join_append,
    String.append_assoc, List.append_assoc]

theorem step_line_behind (h : u.prompt.remember line = .ok prompt) :
    u.step (.line line) = .ok (u.behind [line] (prompt, u.files, [])) := by
  rw [step, h]
  simp [Except.mapError, bind, Except.bind, pure, Except.pure, behind]

theorem step_close_behind (h : prompt.close files = (prompt', files', .ok log)) :
    (u.behind lines (prompt, files, [])).step .close
      = .ok (u.behind lines (prompt', files', log)) := by
  simp [step, behind, h, bind, Except.bind, pure, Except.pure]

theorem foldlM_closingBehind : ∀ (lines : List String) {closing : Option ℕ} {u : Use},
    (closingBehind closing lines).foldlM step u
      = (takeLines u.prompt u.files closing lines).map (u.behind lines)
  | [], closing, u => by
    simp [closingBehind, takeLines, Except.map, pure, Except.pure, behind]
  | line :: rest, closing, u => by
    rw [closingBehind, takeLines]
    -- trouble with the line comes before it is seen whether the prompt is closed behind it
    rcases hremember : u.prompt.remember line with e | prompt
    · split_ifs <;> simp [step, hremember, Except.mapError, bind, Except.bind, Except.map]
    have htext := text_of_remember hremember
    have hline := step_line_behind hremember
    split_ifs with hclosing
    · rcases hclose : prompt.close u.files with ⟨prompt', files, e | saved⟩
      · rw [List.foldlM_cons, hline]
        simp [step, behind, hclose, Except.mapError, bind, Except.bind, Except.map]
      have htext' := text_close prompt u.files
      rw [hclose, htext] at htext'
      rw [List.foldlM_cons, hline]
      change (Step.close :: closingBehind none rest).foldlM step _ = _
      rw [List.foldlM_cons, step_close_behind hclose]
      change (closingBehind none rest).foldlM step _ = _
      rw [foldlM_closingBehind rest]
      simp only [Except.mapError, bind, Except.bind, hclose]
      change (takeLines prompt' files none rest).map _ = _
      rcases takeLines prompt' files none rest with e | r
      · rfl
      · exact congrArg _ (behind_behind htext')
    · rw [List.foldlM_cons, hline]
      change (closingBehind (closing.map (· - 1)) rest).foldlM step _ = _
      rw [foldlM_closingBehind rest]
      simp only [Except.mapError, bind, Except.bind]
      change (takeLines prompt u.files (closing.map (· - 1)) rest).map _ = _
      rcases takeLines prompt u.files (closing.map (· - 1)) rest with e | r
      · rfl
      · exact congrArg _ (behind_behind htext)

end Use

/-- A session is the use of a prompt that is closed behind some line, or not before it is left. -/
theorem session_eq_use (p : Prompt) (files : Files) (lines : List String) (ending : Ending)
    (closing : Option ℕ) :
    p.session files lines ending closing
      = (p.use files (closingBehind closing lines ++ [.ended ending])).map fun u =>
        (u.shown, u.log, u.files) := by
  rw [session, use, useSoFar]
  rcases p.load files with e | ⟨prompt, found, opened⟩
  · rfl
  simp only [bind, Except.bind]
  rw [List.append_assoc, List.foldlM_append, Use.foldlM_closingBehind]
  rcases htake : takeLines prompt files closing lines with e | ⟨prompt', files', log⟩
  · rfl
  have htext : prompt'.text = prompt.text := text_of_takeLines lines htake
  have hshown : String.join (List.replicate (lines.length + 1) prompt.text)
      = String.join (List.replicate lines.length prompt.text) ++ prompt.text := by
    simp [List.replicate_succ']
  simp only [Except.map, bind, Except.bind, List.cons_append, List.nil_append, List.foldlM_cons,
    List.foldlM_nil, Use.step, Use.behind, pure, Except.pure]
  rcases (prompt'.close files').2.2 with e | saved
  · rfl
  · simp [htext, hshown]

/-- All lines are handed on, and of those that come before the first closing, the ones to be
remembered are in the history file behind what was there, up to the limit. Up to that closing the
files are as they were, and no line but those and no later closing makes a difference to them. A
null character in a line to be remembered breaks the use off. -/
theorem use_saves {path : String} {limit : ℤ} {files : Files} {steps : List Step} (text : String)
    (hpath : files.Writable path) (hlimit : History.isLimit limit)
    (hlines : ∀ line ∈ taken steps, '\n' ∉ line.toList) :
    let p : Prompt := ⟨text, path, limit, [], false⟩
    (∀ lines, History.Plain lines → files.read path = .ok (String.join (lines.map (· ++ "\n"))) →
      files.entries path = lines.filter (· ≠ ""))
    ∧ (∀ lines ending closing, p.session files lines ending closing
      = (p.use files (closingBehind closing lines ++ [.ended ending])).map fun u =>
        (u.shown, u.log, u.files))
    ∧ (∀ early u, .close ∉ early → p.useSoFar files early = .ok u → u.files = files)
    ∧ ((∃ line ∈ taken steps, History.isKept line ∧ '\x00' ∈ line.toList) →
      p.use files steps = .error .nullInLine)
    ∧ ((∀ line ∈ taken steps, History.isKept line → '\x00' ∉ line.toList) →
      ∃ u, p.use files steps = .ok u ∧ u.handedOn = taken steps
        ∧ u.files.read path = .ok (String.join
          ((History.cut limit (files.entries path ++ remembered steps)).map (· ++ "\n")))
        ∧ ∀ steps' u', p.use files steps' = .ok u' → remembered steps' = remembered steps →
          u'.files = u.files) := by
  intro p
  have hlimit' : History.isLimit p.historyLength := hlimit
  refine ⟨fun lines => Files.entries_of_plain, session_eq_use p files,
    fun early u => files_of_useSoFar, fun hnull => ?_, fun hnull => ?_⟩
  · exact use_eq_error hpath.1 hlimit' (by simpa [History.isEntry] using hnull)
  · obtain ⟨u, huse, hhanded, hfiles⟩ := use_eq_ok files rfl hpath.1 hlimit'
      fun line hl hk => History.isEntry_iff.2 (hnull line hl hk)
    refine ⟨u, huse, hhanded, ?_, fun steps' u' huse' hsame => ?_⟩
    · obtain ⟨g, hsave, hread⟩ := save_of_writable
        (p := { p with history := p.history ++ files.entries p.historyFile ++ remembered steps })
        hpath hlimit'
      rw [hfiles, hsave]
      refine hread.trans (congrArg _ (History.toText_eq fun e he => ?_))
      rcases List.mem_append.1 he with he | he
      · exact Files.isLine_of_mem_entries he
      · obtain ⟨hline, hkept⟩ := mem_taken_of_mem_remembered he
        exact History.isLine_of_isKept hkept (hlines e hline)
    · have hnull' : ∀ line ∈ taken steps', History.isKept line → History.isEntry line := by
        intro line hline hkept
        by_contra hentry
        rw [use_eq_error hpath.1 hlimit' ⟨line, hline, hkept, by simpa using hentry⟩] at huse'
        cases huse'
      obtain ⟨w, hw, -, hfiles'⟩ := use_eq_ok files rfl hpath.1 hlimit' hnull'
      cases hw.symm.trans huse'
      rw [hfiles, hfiles', hsame]

/-- The empty line in the file is no entry. The blank line and the one that begins with a space are
not remembered, and the last one comes too late. -/
theorem use_saves_twice_closed :
    let files := Files.ofPaths [("cache/history", "older\n\nold\n")] []
    let steps : List Step := [.line "a", .line " b", .line "\t", .line "a", .close, .line "c",
      .ended .interrupt, .close]
    ∃ u, (⟨"gsh> ", "cache/history", 3, [], false⟩ : Prompt).use files steps = .ok u
      ∧ u.handedOn = ["a", " b", "\t", "a", "c"]
      ∧ u.files.read "cache/history" = .ok "old\na\na\n" := by
  intro files steps
  have hpath : files.Writable "cache/history" := ⟨by decide, _, _, rfl, rfl⟩
  have hlimit : History.isLimit 3 := by decide
  have hlines : ∀ line ∈ taken steps, '\n' ∉ line.toList := by decide
  obtain ⟨hentries, -, -, -, hsaves⟩ := use_saves "gsh> " hpath hlimit hlines
  obtain ⟨u, huse, hhanded, hread, -⟩ := hsaves (by decide)
  refine ⟨u, huse, hhanded, ?_⟩
  rw [hread, hentries ["older", "", "old"] ⟨by decide, by decide, by decide, by decide⟩ rfl]
  rfl

end Prompt

end GaugeConsole
