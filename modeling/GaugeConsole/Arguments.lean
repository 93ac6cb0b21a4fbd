import GaugeConsole.Text.Digit
import GaugeConsole.Text.Quoted

/-!
# Command line arguments

Three options: the help, the bind address and the settings file. A long option may be shortened
as long as it stays the only one, and its value may stand behind an equals sign; the letters of
short options may run together, the last of them with its value. An argument that looks like an
option is no value, unless it is a negative number or holds a space. The last value of an option
counts. An ambiguous option is an error before any other. Two dashes are taken off wherever they
stand as a value, even where that leaves none.
-/

namespace GaugeConsole

inductive Flag where
  | help
  | address
  | config
deriving DecidableEq, Repr

namespace Flag

def all : List Flag := [help, address, config]

def long : Flag → String
  | help => "--help"
  | address => "--address"
  | config => "--config"

def letter : Flag → Char
  | help => 'h'
  | address => 'a'
  | config => 'c'

def ofLetter? (c : Char) : Option Flag := all.find? (·.letter = c)

/-- Both spellings, as they stand in messages. -/
def spelling : Flag → String
  | help => "-h/--help"
  | address => "--address/-a"
  | config => "--config/-c"

end Flag

inductive ArgumentError where
  | ambiguous (text : String) (flags : List Flag)
  | valueMissing (flag : Flag)
  | valueIgnored (flag : Flag) (value : String)
  | unrecognized (texts : List String)
deriving DecidableEq, Repr

namespace ArgumentError

def message : ArgumentError → String
  | ambiguous text flags =>
    "ambiguous option: " ++ text ++ " could match " ++ ", ".intercalate (flags.map Flag.long)
  | valueMissing flag => "argument " ++ flag.spelling ++ ": expected one argument"
  | valueIgnored flag value =>
    "argument " ++ flag.spelling ++ ": ignored explicit argument " ++ quoted value
  | unrecognized texts => "unrecognized arguments: " ++ " ".intercalate texts

end ArgumentError

inductive Argument where
  | value (text : String)
  /-- Two dashes: everything after them is a value. -/
  | dashes
  /-- A long option, with the value behind its equals sign. -/
  | long (flag : Flag) (value : Option String)
  /-- A short option, with whatever stands behind its letter. -/
  | short (flag : Flag) (rest : List Char)
  | unknown (text : String)
deriving DecidableEq, Repr

namespace Argument

/-- A minus sign and digits, with at most one point among or before them, and with or without a line
feed at the end. -/
def isNegativeNumber (cs : List Char) : Bool :=
  match if cs.getLast? = some '\n' then cs.dropLast else cs with
  | '-' :: r =>
    let digit := fun c => (digitValue? c).isSome
    match r.dropWhile digit with
    | [] => r ≠ []
    | '.' :: fraction => fraction ≠ [] && fraction.all digit
    | _ => false
  | _ => false

/-- What an argument is that looks like an option and is none. -/
def stray (cs : List Char) : Argument :=
  if isNegativeNumber cs || ' ' ∈ cs then value (String.ofList cs) else unknown (String.ofList cs)

/-- The text before the first equals sign and, if there is one, the text after it. -/
def splitEquals : List Char → List Char × Option (List Char)
  | [] => ([], none)
  | c :: r =>
    if c = '=' then ([], some r)
    else
      let (before, after) := splitEquals r
      (c :: before, after)

def classify (text : String) : Except ArgumentError Argument :=
  match text.toList with
  | ['-', '-'] => .ok dashes
  | '-' :: '-' :: r =>
    let (name, attached) := splitEquals ('-' :: '-' :: r)
    match Flag.all.filter fun f => name.isPrefixOf f.long.toList with
    | [] => .ok (stray ('-' :: '-' :: r))
    | [f] => .ok (long f (attached.map String.ofList))
    | fs => .error (.ambiguous text fs)
  | '-' :: c :: r =>
    match Flag.ofLetter? c with
    | some f => .ok (short f r)
    | none => .ok (stray ('-' :: c :: r))
  | cs => .ok (value (String.ofList cs))

/-- Classifies all arguments; what follows two dashes is a value. -/
def classifyAll : List String → Except ArgumentError (List Argument)
  | [] => .ok []
  | t :: ts => do
    match ← classify t with
    | dashes => return dashes :: ts.map value
    | a => return a :: (← classifyAll ts)

def valueOf? : Argument → Option String
  | value text => some text
  | _ => none

end Argument

inductive Given where
  | text (s : String)
  /-- The value was two dashes, which do not count. -/
  | nothing
deriving DecidableEq, Repr

namespace Given

def ofText (s : String) : Given := if s = "--" then nothing else text s

def text? : Given → Option String
  | text s => some s
  | nothing => none

end Given

structure Arguments where
  address : Option Given := none
  config : Option Given := none
deriving DecidableEq, Repr

/-- What is to be done instead of running. -/
inductive Usage where
  | help
  | error (cause : ArgumentError)
deriving DecidableEq, Repr

namespace Arguments

def put (a : Arguments) (flag : Flag) (value : String) : Arguments :=
  match flag with
  | .help => a
  | .address => { a with address := some (.ofText value) }
  | .config => { a with config := some (.ofText value) }

/-- What the letters behind a help option come to: help, unless one of them is no option, so that
the help option would have a value, or lacks its own. `next` is the argument after this one. -/
def cluster (next : Option Argument) : List Char → Usage
  | [] => .help
  | c :: r =>
    match Flag.ofLetter? c, r with
    | none, r => .error (.valueIgnored .help (String.ofList (c :: r)))
    | some .help, r => cluster next r
    | some flag, [] =>
      if (next.bind Argument.valueOf?).isSome then .help else .error (.valueMissing flag)
    | some _, _ :: _ => .help

/-- Reads classified arguments. `extra` are those that nothing asked for. -/
def collect (a : Arguments) (extra : List String) : List Argument → Except Usage Arguments
  | [] => if extra = [] then .ok a else .error (.error (.unrecognized extra))
  | .value text :: r => collect a (extra ++ [text]) r
  | .dashes :: r => collect a (extra ++ ["--"]) r
  | .unknown text :: r => collect a (extra ++ [text]) r
  | .long .help none :: _ => .error .help
  | .long .help (some value) :: _ => .error (.error (.valueIgnored .help value))
  | .long flag (some value) :: r => collect (a.put flag value) extra r
  | .short .help ['='] :: _ => .error (.error (.valueIgnored .help ""))
  | .short .help ('=' :: rest) :: r => .error (cluster r.head? rest)
  | .short .help rest :: r => .error (cluster r.head? rest)
  | .short flag ('=' :: value) :: r => collect (a.put flag (String.ofList value)) extra r
  | .short flag (c :: cs) :: r => collect (a.put flag (String.ofList (c :: cs))) extra r
  | .long flag none :: .value text :: r => collect (a.put flag text) extra r
  | .short flag [] :: .value text :: r => collect (a.put flag text) extra r
  | .long flag none :: _ => .error (.error (.valueMissing flag))
  | .short flag [] :: _ => .error (.error (.valueMissing flag))

def read (texts : List String) : Except Usage Arguments :=
  match Argument.classifyAll texts with
  | .error e => .error (.error e)
  | .ok as => collect {} [] as

end Arguments

def usageLine : String := "usage: gaugeshell [-h] [--address host:port] [--config CONFIG]\n"

def usageText : String := usageLine ++ "
Interactive shell for Prometheus gauges

options:
  -h, --help            show this help message and exit
  --address host:port, -a host:port
                        Prometheus exporter bind address (default
                        127.0.0.1:9000)
  --config CONFIG, -c CONFIG
                        Path to optional configuration YAML file
"

namespace ArgumentError

/-- The whole text that a wrong command line is answered with. -/
def report (e : ArgumentError) : String := usageLine ++ "gaugeshell: error: " ++ e.message ++ "\n"

end ArgumentError

end GaugeConsole
