import GaugeConsole.Files
import GaugeConsole.Document.Tree
import GaugeConsole.Settings.Field

/-!
# Settings

The settings come from a document with three sections, each of which may be missing, as may each
setting in it; whatever else the document says is ignored. Two variables of the environment take
the place of the address and the log level in the document, before it is checked; an address on
the command line takes the place of both. An address is checked wherever it comes from.
-/

namespace GaugeConsole

open Document (Value Fault)

inductive LogFormat where
  | json
  | text
deriving DecidableEq, Repr

namespace LogFormat

def word : LogFormat → String
  | json => "json"
  | text => "text"

end LogFormat

structure LogSettings where
  level : String := "INFO"
  format : LogFormat := .text
deriving DecidableEq, Repr

/-- Where the metrics are exposed, as it was written and as it was read, how often they are
refreshed, and whether the program counts what it does. -/
structure ExporterSettings where
  address : String := "127.0.0.1:9000"
  endpoint : Address := ⟨"127.0.0.1", 9000⟩
  interval : Binary64 := .ofNat 1
  selfMetrics : Bool := true
deriving DecidableEq

structure PromptSettings where
  text : String := "gsh> "
  historyFile : Option String := none
  historyLength : Int := 1000
deriving DecidableEq, Repr

structure Settings where
  log : LogSettings := {}
  exporter : ExporterSettings := {}
  prompt : PromptSettings := {}
deriving DecidableEq

/-! ## Checking a document -/

namespace LogSettings

def readFormat : Value → Except Problem LogFormat
  | .text s =>
    if hasHalf s then .error .notUnicode
    else if s = "json" then .ok .json
    else if s = "text" then .ok .text
    else .error .notFormat
  | _ => .error .notFormat

def check (here : String) (entries : List (Value × Value)) : Checked LogSettings :=
  let d : LogSettings := {}
  ((Checked.field here entries "log_level" d.level Field.text).and
    (Checked.field here entries "log_format" d.format readFormat)).map
    fun (level, format) => ⟨level, format⟩

end LogSettings

namespace ExporterSettings

def readAddress (v : Value) : Except Problem (String × Address) := do
  let text ← Field.text v
  match Address.read text with
  | .ok a => return (text, a)
  | .error e => throw (.address e)

def check (here : String) (entries : List (Value × Value)) : Checked ExporterSettings :=
  let d : ExporterSettings := {}
  ((Checked.field here entries "address" (d.address, d.endpoint) readAddress).and
    ((Checked.field here entries "refresh_interval_s" d.interval Field.positive).and
      (Checked.field here entries "self_metrics" d.selfMetrics Field.truth))).map
    fun ((address, endpoint), interval, selfMetrics) => ⟨address, endpoint, interval, selfMetrics⟩

end ExporterSettings

namespace PromptSettings

def check (here : String) (entries : List (Value × Value)) : Checked PromptSettings :=
  let d : PromptSettings := {}
  ((Checked.field here entries "prompt" d.text Field.text).and
    ((Checked.field here entries "history_file" d.historyFile Field.optionalText).and
      (Checked.field here entries "history_length" d.historyLength Field.whole))).map
    fun (text, historyFile, historyLength) => ⟨text, historyFile, historyLength⟩

end PromptSettings

namespace Settings

/-- The names of the section on logging, of which the first counts more. -/
def logSections : List String := ["global", "global_"]

def check (entries : List (Value × Value)) : Checked Settings :=
  ((Checked.group entries logSections {} LogSettings.check).and
    ((Checked.group entries ["exporter"] {} ExporterSettings.check).and
      (Checked.group entries ["shell"] {} PromptSettings.check))).map
    fun (log, exporter, prompt) => ⟨log, exporter, prompt⟩

end Settings

/-! ## The environment -/

/-- What the environment says in place of the document. -/
structure Overrides where
  address : Option String := none
  logLevel : Option String := none
deriving DecidableEq, Repr

namespace Overrides

/-- The variables as they are set; an empty one counts as unset. -/
def ofVariables (address logLevel : Option String) : Overrides :=
  ⟨address.filter (!·.isEmpty), logLevel.filter (!·.isEmpty)⟩

end Overrides

inductive SettingsError where
  | missing (path : String)
  | unreadable (error : FileError)
  /-- The path to the settings is given and yet there is none. -/
  | noPath
  | faulty (fault : Fault)
  /-- A variable of the environment has no place in a document of this type. -/
  | noSections (typeName : String)
  /-- A variable of the environment has no place in a section of this type. -/
  | noFields (typeName : String)
  | notMapping (typeName : String)
  | keyNotText
  | invalid (complaints : List Complaint)
  /-- The address to use in place of the loaded one is none. -/
  | address (error : AddressError)
  /-- The address to use in place of the loaded one is not even a text. -/
  | noAddress
deriving DecidableEq

namespace SettingsError

def countText (n : Nat) (subject : String) : String :=
  intText n ++ " validation error" ++ (if n = 1 then "" else "s") ++ " for " ++ subject

def failed (cause : String) : String := "Configuration validation failed: " ++ cause

def message : SettingsError → String
  | missing path => "Configuration file not found: " ++ path
  | unreadable e => e.message
  | noPath => "stat: path should be string, bytes, os.PathLike or integer, not list"
  | faulty fault => fault.message
  | noSections typeName => quoted typeName ++ " object has no attribute 'setdefault'"
  | noFields typeName =>
    if typeName = "list" then "list indices must be integers or slices, not str"
    else quoted typeName ++ " object does not support item assignment"
  | notMapping typeName =>
    failed ("gaugeshell.config.Config() argument after ** must be a mapping, not " ++ typeName)
  | keyNotText => failed "keywords must be strings"
  | invalid complaints => failed (countText complaints.length "Config")
  | address _ | noAddress => countText 1 "ExporterConfig"

end SettingsError

namespace Settings

/-- Puts a text under a key of a section, which is added if it is missing. -/
def override (here key text : String) (doc : Value) : Except SettingsError Value :=
  match doc with
  | .mapping entries =>
    match (Value.find? here entries).getD (.mapping []) with
    | .mapping fields =>
      .ok (.mapping (Value.put here (.mapping (Value.put key (.text text) fields)) entries))
    | other => .error (.noFields other.typeName)
  | other => .error (.noSections other.typeName)

/-- Puts in what the environment says, the address before the log level. -/
def overridden (o : Overrides) (doc : Value) : Except SettingsError Value := do
  let doc ← match o.address with
    | some a => override "exporter" "address" a doc
    | none => pure doc
  match o.logLevel with
  | some l => override "global" "log_level" l doc
  | none => pure doc

/-- Checks a document, which has to be a mapping with texts for keys. -/
def validate : Value → Except SettingsError Settings
  | .mapping entries =>
    if entries.all (·.1.isText) then
      match check entries with
      | .ok s => .ok s
      | .failed complaints => .error (.invalid complaints)
    else .error .keyNotText
  | other => .error (.notMapping other.typeName)

/-- The settings of a document and the environment. A document that says nothing is as good as an
empty mapping. -/
def ofDocument (doc : Value) (o : Overrides) : Except SettingsError Settings := do
  validate (← overridden o (if doc.isVoid then .mapping [] else doc))

/-- The settings of a document's text and the environment. -/
def ofText (text : String) (o : Overrides) : Except SettingsError Settings :=
  match Document.read text with
  | .ok doc => ofDocument doc o
  | .error fault => .error (.faulty fault)

/-- The settings of a file, if there is to be one, and the environment. -/
def load (files : Files) (path : Option String) (o : Overrides) : Except SettingsError Settings :=
  match path with
  | none => ofDocument .null o
  | some path =>
    match files.found? path.toList with
    | none => .error (.missing path)
    | some .directory => .error (.unreadable ⟨.isDirectory, some path⟩)
    | some (.file text) => ofText text o

def withAddress (s : Settings) (text : String) : Except AddressError Settings := do
  let endpoint ← Address.read text
  return { s with exporter := { s.exporter with address := text, endpoint := endpoint } }

end Settings

end GaugeConsole
