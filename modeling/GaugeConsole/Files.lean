import GaugeConsole.OrderedMap
import GaugeConsole.Text.Pieces
import GaugeConsole.Text.Quoted

/-!
# Files

The files and directories that the program can see, and what reading, writing and making
directories does to them. A path is followed component by component from the working directory, or
from the root if it begins with a slash; every component but the last has to be a directory.
-/

namespace GaugeConsole

inductive FileCause where
  | missing
  | exists
  | notDirectory
  | isDirectory
  | invalid
  | tooLong
deriving DecidableEq, Repr

/-- A failed operation, with the path if the operation tells it. -/
structure FileError where
  cause : FileCause
  path : Option String := none
deriving DecidableEq, Repr

namespace FileCause

def number : FileCause → Nat
  | missing => 2
  | «exists» => 17
  | notDirectory => 20
  | isDirectory => 21
  | invalid => 22
  | tooLong => 36

def wording : FileCause → String
  | missing => "No such file or directory"
  | «exists» => "File exists"
  | notDirectory => "Not a directory"
  | isDirectory => "Is a directory"
  | invalid => "Invalid argument"
  | tooLong => "File name too long"

end FileCause

def systemMessage (number : Nat) (wording : String) : String :=
  "[Errno " ++ intText number ++ "] " ++ wording

namespace FileError

def message (e : FileError) : String :=
  systemMessage e.cause.number e.cause.wording ++ (e.path.map fun p => ": " ++ quoted p).getD ""

end FileError

inductive Node where
  | directory
  | file (text : String)
deriving DecidableEq

namespace Path

/-- Leaves out the slashes at the end, unless there is nothing else. -/
def trimEnd (p : List Char) : List Char :=
  let kept := (p.reverse.dropWhile (· = '/')).reverse
  if kept = [] then p else kept

/-- The directory part of a path, and the rest after the last slash. -/
def split (p : List Char) : List Char × List Char :=
  match (p.reverse.dropWhile (· ≠ '/')).reverse with
  | [] => ([], p)
  | head => (trimEnd head, p.drop head.length)

def maxName : Nat := 255

def maxLength : Nat := 4095

def byteSize (p : List Char) : Nat := (String.ofList p).utf8ByteSize

def join (a b : String) : String :=
  if a.isEmpty || a.endsWith "/" then a ++ b else a ++ "/" ++ b

end Path

/-- What there is at which place. A place is the list of the components that lead to it; that of
the root is known by a slash, and those above the working directory by two dots for each step. -/
structure Files where
  nodes : OrderedMap (List String) Node := {}
deriving DecidableEq

namespace Files

/-- The root, the working directory and those above it are always there. -/
def node? (f : Files) (place : List String) : Option Node :=
  if place = ["/"] ∨ place.all (· = "..") then some .directory else f.nodes.get? place

/-- The directory above a place. Nothing is above the root. -/
def parent (place : List String) : List String :=
  if place = ["/"] then place
  else if place.all (· = "..") then place ++ [".."]
  else place.dropLast

/-- Follows components from a directory. What the last one leads to need not exist. -/
def follow (f : Files) (here : List String) : List (List Char) → Except FileCause (List String)
  | [] => .ok here
  | c :: r =>
    if c = [] ∨ c = ['.'] then follow f here r
    else if c = ['.', '.'] then follow f (parent here) r
    else if Path.maxName < Path.byteSize c then .error .tooLong
    else
      let place := here ++ [String.ofList c]
      if r = [] then .ok place
      else
        match f.node? place with
        | some .directory => follow f place r
        | some (.file _) => .error .notDirectory
        | none => .error .missing

def place (f : Files) (path : List Char) : Except FileCause (List String) :=
  match path with
  | [] => .error .missing
  | c :: r =>
    if Path.maxLength < Path.byteSize path then .error .tooLong
    else if c = '/' then f.follow ["/"] (piecesAt '/' r)
    else f.follow [] (piecesAt '/' path)

def found? (f : Files) (path : List Char) : Option Node :=
  match f.place path with
  | .ok place => f.node? place
  | .error _ => none

def read (f : Files) (path : String) : Except FileError String :=
  match f.place path.toList with
  | .error cause => .error ⟨cause, none⟩
  | .ok place =>
    match f.node? place with
    | none => .error ⟨.missing, none⟩
    | some .directory => .error ⟨.invalid, none⟩
    | some (.file text) => .ok text

/-- Writes a file, in place of the one that may be there. -/
def write (f : Files) (path text : String) : Except FileError Files :=
  match f.place path.toList with
  | .error cause => .error ⟨cause, none⟩
  | .ok place =>
    match f.node? place with
    | some .directory => .error ⟨.isDirectory, none⟩
    | _ => .ok ⟨f.nodes.insert place (.file text)⟩

def createDir (f : Files) (path : List Char) : Except FileError Files :=
  let name := some (String.ofList path)
  match f.place path with
  | .error cause => .error ⟨cause, name⟩
  | .ok place =>
    match f.node? place with
    | some _ => .error ⟨.exists, name⟩
    | none => .ok ⟨f.nodes.insert place .directory⟩

/-- Makes a directory unless it is there, and before that the directories on the way to it, at
most so many. What has been made stays when a later one fails. A file on the way is left to the
next step to complain of, and a dot behind a directory that had to be made names nothing new. -/
def createDirAll (f : Files) : Nat → List Char → Files × Except FileError Unit
  | 0, _ => (f, .ok ())
  | n + 1, path =>
    let parts := Path.split path
    let (head, tail) := if parts.2 = [] then Path.split parts.1 else parts
    if head ≠ [] ∧ tail ≠ [] ∧ (f.found? head).isNone then
      match createDirAll f n head with
      | (f, .ok _) => if tail = ['.'] then (f, .ok ()) else last f path
      | (f, .error e) =>
        if e.cause ≠ .exists then (f, .error e)
        else if tail = ['.'] then (f, .ok ())
        else last f path
    else last f path
where
  /-- Makes the directory itself, which may be there. -/
  last (f : Files) (path : List Char) : Files × Except FileError Unit :=
    match f.createDir path with
    | .ok f => (f, .ok ())
    | .error e => if f.found? path = some .directory then (f, .ok ()) else (f, .error e)

/-- Makes the directory that a file is to stand in. -/
def prepare (f : Files) (path : String) : Files × Except FileError Unit :=
  let dir := (Path.split path.toList).1
  if dir = [] then (f, .ok ()) else f.createDirAll path.length dir

/-- Files and directories by their paths, with the directories that they stand in. -/
def ofPaths (files : List (String × String)) (dirs : List String) : Files :=
  let f := dirs.foldl (fun f d => (f.createDirAll (d.length + 1) d.toList).1) {}
  files.foldl (fun f (path, text) =>
    let f := (f.prepare path).1
    match f.write path text with
    | .ok f => f
    | .error _ => f) f

end Files

end GaugeConsole
