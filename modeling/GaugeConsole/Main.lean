import GaugeConsole.Program

/-!
# The command line

Reads what the program needs from its surroundings, hands it the lines of the standard input, and
carries out what it says. A scrape is not answered here: serving the published view over a network
is left to whoever embeds the program.
-/

open GaugeConsole

def textAt? (path : String) : IO (Option String) := do
  try
    return some (← IO.FS.readFile path)
  catch _ =>
    return none

def filesAt (paths : List String) : IO Files := do
  let found ← paths.filterMapM fun path => return (← textAt? path).map (path, ·)
  return .ofPaths found []

def emit (output : Output) : IO Unit := do
  IO.print output.standard
  IO.eprint output.error
  (← IO.getStdout).flush

/-- Writes a file, and before that makes the directory that it is to stand in. -/
def save (path text : String) : IO Unit := do
  let directory := String.ofList (Path.split path.toList).1
  if !directory.isEmpty then IO.FS.createDirAll directory
  IO.FS.writeFile path text

/-- Hands over lines until one of them says exit or there are no more. -/
partial def converse (p : Program) (input : IO.FS.Stream) :
    IO (Except PromptError Ended) := do
  emit p.ask
  let line ← input.getLine
  if line.isEmpty then return p.finish (.input .endOfInput)
  let text := if line.endsWith "\n" then (line.dropEnd 1).copy else line
  match p.feed text with
  | .error e => return .error e
  | .ok (p, output, exits) =>
    emit output
    if exits then return p.finish .exit
    converse p input

def main (arguments : List String) : IO UInt32 := do
  let home := (← IO.getEnv "HOME").getD ""
  let cache ← IO.getEnv "XDG_CACHE_HOME"
  let overrides :=
    Overrides.ofVariables (← IO.getEnv "GAUGESHELL_ADDRESS") (← IO.getEnv "LOG_LEVEL")
  let asked := (Arguments.read arguments).toOption.getD {}
  let settingsPath := (asked.config.bind Given.text?).toList
  let settingsFiles ← filesAt settingsPath
  let invocation : Invocation := {
    arguments, overrides, home, cache, files := settingsFiles, clock := .steady .zero }
  let history := match Settings.ofInvocation invocation asked with
    | .ok s => (s.newPrompt home cache).historyFile
    | .error _ => defaultHistoryFile home cache
  let files ← filesAt (settingsPath ++ [history])
  match Program.start { invocation with files } fun _ => none with
  | .error e => throw (IO.userError e.message)
  | .ok (.inl ended) =>
    emit ended.output
    return ended.status.toUInt32
  | .ok (.inr (p, output)) =>
    emit output
    match p.conclude (← converse p (← IO.getStdin)) with
    | .error e => throw (IO.userError e.message)
    | .ok ended =>
      emit ended.output
      match ended.files.read history with
      | .ok text => save history text
      | .error _ => pure ()
      return ended.status.toUInt32
