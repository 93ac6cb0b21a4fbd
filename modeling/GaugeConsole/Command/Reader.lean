import GaugeConsole.Command

/-!
# Reading a command

A line is blank, or it is read as each kind of command in turn. The first reading that takes up
the whole line counts; if there is none, the line is rejected at the furthest column that some
reading reached (`Command.read`).

A reading works on the characters left. Where it cannot go on it fails with what is left there, so
a column is a difference of two lengths.
-/

namespace GaugeConsole

/-- Why a line is no command: something unexpected stands at a column, counted from 0. -/
structure ReadError where
  column : Nat
deriving DecidableEq

namespace ReadError

def message (e : ReadError) : String :=
  "failed to parse: unexpected input at column " ++ intText (e.column + 1)

end ReadError

/-- Returns what was read and the characters left, or the characters at which reading stopped. -/
abbrev Reader := StateT (List Char) (Except (List Char))

/-- Space, tab, carriage return and line feed may stand between the parts of a command. -/
def isBlank (c : Char) : Bool := c = ' ' || c = '\t' || c = '\r' || c = '\n'

def isLetter (c : Char) : Bool := ('A' ≤ c && c ≤ 'Z') || ('a' ≤ c && c ≤ 'z')

namespace Reader

def fail {α : Type} : Reader α := fun s => .error s

def nextIs (c : Char) : Reader Bool := fun s => .ok (s.head? = some c, s)

def char (c : Char) : Reader Unit
  | d :: r => if d = c then .ok ((), r) else .error (d :: r)
  | [] => .error []

def word (w : String) : Reader Unit := fun s =>
  if w.toList.isPrefixOf s then .ok ((), s.drop w.toList.length) else .error s

def blanks : Reader Unit := fun s => .ok ((), s.dropWhile isBlank)

/-- At least one blank. -/
def gap : Reader Unit
  | c :: r => if isBlank c then .ok ((), r.dropWhile isBlank) else .error (c :: r)
  | [] => .error []

/-- At least one letter. -/
def name : Reader String := fun s =>
  match s.takeWhile isLetter with
  | [] => .error s
  | cs => .ok (String.ofList cs, s.dropWhile isLetter)

def number : Reader Binary64 := fun s =>
  match Literal.read? s with
  | some (l, r) => .ok (l.value, r)
  | none => .error s

/-- The characters up to the closing quote. A backslash stands before a quote or a backslash that
is meant literally, and before nothing else. -/
def quotedRest : List Char → Except (List Char) (List Char × List Char)
  | [] => .error []
  | '"' :: r => .ok ([], r)
  | '\\' :: '"' :: r => (quotedRest r).map fun (cs, r) => ('"' :: cs, r)
  | '\\' :: '\\' :: r => (quotedRest r).map fun (cs, r) => ('\\' :: cs, r)
  | '\\' :: r => .error r
  | c :: r => (quotedRest r).map fun (cs, r) => (c :: cs, r)

def quoted : Reader String := do
  char '"'
  let cs ← (quotedRest : Reader (List Char))
  return String.ofList cs

def pair : Reader (String × String) := do
  let key ← name
  blanks
  char '='
  blanks
  let value ← quoted
  return (key, value)

/-- Pairs with nothing but a comma between them, at most so many. -/
def pairs : Nat → Reader (List (String × String))
  | 0 => fail
  | n + 1 => do
    let p ← pair
    if ← nextIs ',' then
      char ','
      let ps ← pairs n
      return p :: ps
    else
      return [p]

/-- Tags in brackets; of a key that stands twice the last value counts. -/
def tags : Reader Tags := do
  char '['
  if ← nextIs ']' then
    char ']'
    return {}
  else
    let s ← get
    let ps ← pairs s.length
    char ']'
    return .ofList ps

def metric : Reader Metric := do
  let n ← name
  if ← nextIs '[' then
    return ⟨n, ← tags⟩
  else
    return ⟨n, {}⟩

def setCommand : Reader Command := do
  word "set"
  gap
  let m ← metric
  blanks
  char '='
  blanks
  return .set m (← number)

def delCommand : Reader Command := do
  word "del"
  gap
  return .del (← metric)

def getCommand : Reader Command := do
  word "get"
  gap
  return .get (← metric)

def exitCommand : Reader Command := do
  if ← nextIs 'q' then word "quit" else word "exit"
  return .exit

def helpCommand : Reader Command := do
  word "help"
  return .help

/-- The kinds of command, in the order in which they are tried. -/
def kinds : List (Reader Command) := [setCommand, delCommand, getCommand, exitCommand, helpCommand]

def all {α : Type} (r : Reader α) (line : List Char) : Except (List Char) α :=
  match r line with
  | .ok (a, []) => .ok a
  | .ok (_, rest) => .error rest
  | .error rest => .error rest

/-- The first reading that takes up the line, or else the furthest column that one reached. -/
def firstOf (line : List Char) (furthest : Nat) : List (Reader Command) → Except ReadError Command
  | [] => .error ⟨furthest⟩
  | r :: rs =>
    match r.all line with
    | .ok c => .ok c
    | .error rest => firstOf line (max furthest (line.length - rest.length)) rs

end Reader

namespace Command

/-- The command of a line, and no command for a blank line. -/
def read (line : String) : Except ReadError (Option Command) :=
  let cs := line.toList
  if cs.all isBlank then .ok none else (Reader.firstOf cs 0 Reader.kinds).map some

end Command

end GaugeConsole
