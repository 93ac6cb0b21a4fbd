import GaugeConsole.Proofs.Readdressing

/-!
# What the environment overrides

A variable of the environment takes the place of one setting of the document that is loaded, before
the document is checked. For the address that is the same as to give the loaded settings another
address (`Settings.address_overridden`). For the log level it is not quite so: the level is put in
the section `global`, which counts more than one that goes by its other name `global_`. So a
document that has the latter alone loses whatever else it says of the log
(`Settings.level_overridden`).
-/

namespace GaugeConsole

open Document (Value)

namespace Document.Value

variable {key other : String} {entries : List (Value × Value)} {v w : Value}

theorem find?_put : find? key (put other v entries)
    = if other = key then some v else find? key entries := by
  split_ifs with h
  · rw [h, find?_put_self]
  · exact find?_put_of_ne h v entries

theorem find?_put_put (h : key ≠ other) (name : String) :
    find? name (put key v (put other w entries))
      = find? name (put other w (put key v entries)) := by
  simp only [find?_put]
  split_ifs with hkey hother
  · exact absurd (hkey.trans hother.symm) h
  · rfl
  · rfl
  · rfl

end Document.Value

theorem findSome?_congr {α β : Type} {f g : α → Option β} : ∀ {l : List α},
    (∀ a ∈ l, f a = g a) → l.findSome? f = l.findSome? g
  | [], _ => rfl
  | a :: l, h => by
    rw [List.findSome?_cons, List.findSome?_cons, h a List.mem_cons_self,
      findSome?_congr fun b hb => h b (List.mem_cons_of_mem _ hb)]

namespace Checked

variable {α : Type} {here : String} {names : List String} {entries : List (Value × Value)}
  {default a : α} {read : String → List (Value × Value) → Checked α}

theorem group_congr {entries' : List (Value × Value)}
    (h : ∀ name ∈ names, Value.find? name entries = Value.find? name entries') :
    group entries names default read = group entries' names default read := by
  rw [group, group, findSome?_congr fun name hname => by rw [h name hname]]

theorem group_put_of_not_mem {v : Value} (h : here ∉ names) :
    group (Value.put here v entries) names default read = group entries names default read :=
  group_congr fun _ hname => Value.find?_put_of_ne (ne_of_mem_of_not_mem hname h).symm v entries

theorem group_put_head {fields : List (Value × Value)} :
    group (Value.put here (.mapping fields) entries) (here :: names) default read
      = read here fields := by
  simp only [group, List.findSome?_cons, Value.find?_put_self, Option.map_some]

/-- A section that is there is a mapping, and one that is missing is as good as an empty one. -/
theorem exists_fields_of_group (h : group entries [here] default read = ok a)
    (hempty : read here [] = ok default) :
    ∃ fields, (Value.find? here entries).getD (.mapping []) = .mapping fields
      ∧ read here fields = ok a := by
  simp only [group, List.findSome?_cons, List.findSome?_nil] at h
  rcases hfound : Value.find? here entries with _ | v
  · rw [hfound] at h
    cases h
    exact ⟨[], rfl, hempty⟩
  · rw [hfound] at h
    dsimp only [Option.map_some] at h
    split at h
    · cases ‹_ = none›
    · cases ‹some _ = some _›
      exact ⟨_, rfl, h⟩
    · cases h

end Checked

namespace LogSettings

theorem check_nil {here : String} : check here [] = .ok {} := rfl

theorem check_put_level {here : String} {entries : List (Value × Value)} {log : LogSettings}
    (h : check here entries = .ok log) (level : String) :
    check here (Value.put "log_level" (.text level) entries) = .ok { log with level := level } := by
  simp only [check, Checked.map_eq_ok_iff, Checked.and_eq_ok_iff] at h ⊢
  obtain ⟨⟨replaced, format⟩, ⟨-, hformat⟩, rfl⟩ := h
  refine ⟨(level, format), ⟨Checked.field_put_self rfl, ?_⟩, rfl⟩
  rwa [Checked.field_put_of_ne (by decide)]

end LogSettings

theorem ExporterSettings.check_nil {here : String} : check here [] = .ok {} := by
  simp only [check, Checked.field, Value.find?, List.foldl_nil, Checked.and, Checked.map]

namespace Settings

variable {here key other text level : String} {entries : List (Value × Value)}
  {doc doc' : Value} {s : Settings}

/-- Whether the section on logging goes by its second name, and by that alone. -/
def bySecondName : Value → Bool
  | .mapping entries =>
    (Value.find? "global" entries).isNone && (Value.find? "global_" entries).isSome
  | _ => false

theorem check_eq_ok_iff : check entries = .ok s
    ↔ Checked.group entries logSections {} LogSettings.check = .ok s.log
      ∧ Checked.group entries ["exporter"] {} ExporterSettings.check = .ok s.exporter
      ∧ Checked.group entries ["shell"] {} PromptSettings.check = .ok s.prompt := by
  simp only [check, Checked.map_eq_ok_iff, Checked.and_eq_ok_iff]
  constructor
  · rintro ⟨⟨log, exporter, prompt⟩, h, rfl⟩
    exact h
  · exact fun h => ⟨⟨s.log, s.exporter, s.prompt⟩, h, rfl⟩

theorem validate_eq_ok_iff : validate doc = .ok s
    ↔ ∃ entries, doc = .mapping entries ∧ entries.all (·.1.isText) ∧ check entries = .ok s := by
  constructor
  · intro h
    unfold validate at h
    split at h
    · split_ifs at h with htext
      split at h
      · cases h
        exact ⟨_, rfl, htext, ‹_›⟩
      · cases h
    · cases h
  · rintro ⟨entries, rfl, htext, hcheck⟩
    simp only [validate, htext, hcheck, ↓reduceIte]

theorem override_eq_ok_iff : override here key text doc = .ok doc'
    ↔ ∃ entries fields, doc = .mapping entries
      ∧ (Value.find? here entries).getD (.mapping []) = .mapping fields
      ∧ doc' = .mapping
        (Value.put here (.mapping (Value.put key (.text text) fields)) entries) := by
  constructor
  · intro h
    unfold override at h
    split at h
    · split at h
      · cases h
        exact ⟨_, _, rfl, ‹_›, rfl⟩
      · cases h
    · cases h
  · rintro ⟨entries, fields, rfl, hfields, rfl⟩
    simp only [override, hfields]

theorem all_isText_put {v : Value} (h : entries.all (·.1.isText)) :
    (Value.put here v entries).all (·.1.isText) := by
  simp only [Value.put, List.all_append, h]
  rfl

/-- What a document says of the log by the first name of the section, and what is left of it if it
says it by the second one. -/
theorem exists_fields_of_log {log : LogSettings}
    (h : Checked.group entries logSections {} LogSettings.check = .ok log) :
    ∃ fields, (Value.find? "global" entries).getD (.mapping []) = .mapping fields
      ∧ LogSettings.check "global" fields
        = .ok (if bySecondName (.mapping entries) then {} else log) := by
  rcases hfirst : Value.find? "global" entries with _ | v
  · refine ⟨[], rfl, ?_⟩
    rcases hsecond : Value.find? "global_" entries with _ | w
    · simp only [Checked.group, logSections, List.findSome?_cons, hfirst, hsecond,
        Option.map_none, List.findSome?_nil] at h
      cases h
      simp [bySecondName, hfirst, hsecond, LogSettings.check_nil]
    · simp [bySecondName, hfirst, hsecond, LogSettings.check_nil]
  · have hone : Checked.group entries ["global"] {} LogSettings.check = .ok log := by
      simpa [Checked.group, logSections, hfirst] using h
    obtain ⟨fields, hfields, hcheck⟩ :=
      Checked.exists_fields_of_group hone LogSettings.check_nil
    rw [hfirst] at hfields
    exact ⟨fields, hfields, by simp [bySecondName, hfirst, hcheck]⟩

theorem validate_override_level (h : validate doc = .ok s) (level : String) :
    override "global" "log_level" level doc >>= validate
      = .ok { s with log := ⟨level, if bySecondName doc then .text else s.log.format⟩ } := by
  obtain ⟨entries, rfl, htext, hcheck⟩ := validate_eq_ok_iff.1 h
  obtain ⟨hlog, hexporter, hprompt⟩ := check_eq_ok_iff.1 hcheck
  obtain ⟨fields, hfields, hsection⟩ := exists_fields_of_log hlog
  refine except_bind_eq_ok_iff.2 ⟨_, override_eq_ok_iff.2 ⟨_, _, rfl, hfields, rfl⟩, ?_⟩
  refine validate_eq_ok_iff.2 ⟨_, rfl, all_isText_put htext, check_eq_ok_iff.2 ⟨?_, ?_, ?_⟩⟩
  · rw [logSections, Checked.group_put_head, LogSettings.check_put_level hsection]
    split_ifs <;> rfl
  · rwa [Checked.group_put_of_not_mem (by decide)]
  · rwa [Checked.group_put_of_not_mem (by decide)]

theorem validate_override_address (h : validate doc = .ok s) (text : String) :
    (∀ a, Address.read text = .ok a →
      override "exporter" "address" text doc >>= validate = .ok (s.moved text a))
    ∧ ∀ p, Address.read text = .error p →
      override "exporter" "address" text doc >>= validate
        = .error (.invalid [⟨["exporter", "address"], .address p⟩]) := by
  obtain ⟨entries, rfl, htext, hcheck⟩ := validate_eq_ok_iff.1 h
  obtain ⟨hlog, hexporter, hprompt⟩ := check_eq_ok_iff.1 hcheck
  obtain ⟨fields, hfields, hsection⟩ :=
    Checked.exists_fields_of_group hexporter ExporterSettings.check_nil
  have hoverride : override "exporter" "address" text (.mapping entries) = .ok (.mapping
      (Value.put "exporter" (.mapping (Value.put "address" (.text text) fields)) entries)) :=
    override_eq_ok_iff.2 ⟨_, _, rfl, hfields, rfl⟩
  rw [hoverride]
  refine ⟨fun a ha => ?_, fun p hp => ?_⟩
  · refine validate_eq_ok_iff.2 ⟨_, rfl, all_isText_put htext, check_eq_ok_iff.2 ⟨?_, ?_, ?_⟩⟩
    · rwa [Checked.group_put_of_not_mem (by decide)]
    · rw [Checked.group_put_head, ExporterSettings.check_put_address hsection ha]
      rfl
    · rwa [Checked.group_put_of_not_mem (by decide)]
  · have hfailed : check
        (Value.put "exporter" (.mapping (Value.put "address" (.text text) fields)) entries)
        = .failed [⟨["exporter", "address"], .address p⟩] := by
      rw [check, Checked.group_put_of_not_mem (by decide), Checked.group_put_head,
        Checked.group_put_of_not_mem (by decide), hlog, hprompt,
        ExporterSettings.check_put_no_address hsection hp]
      rfl
    have hall : (Value.put "exporter" (.mapping (Value.put "address" (.text text) fields))
        entries).all (·.1.isText) := all_isText_put htext
    change validate (.mapping _) = _
    simp only [validate, hall, hfailed, ↓reduceIte]

theorem check_congr {entries' : List (Value × Value)}
    (h : ∀ name, Value.find? name entries = Value.find? name entries') :
    check entries = check entries' := by
  simp only [check, Checked.group_congr fun name _ => h name]

theorem validate_put_put (h : here ≠ other) (v w : Value) :
    validate (.mapping (Value.put here v (Value.put other w entries)))
      = validate (.mapping (Value.put other w (Value.put here v entries))) := by
  have hcheck : check (Value.put here v (Value.put other w entries))
      = check (Value.put other w (Value.put here v entries)) :=
    check_congr (Value.find?_put_put h)
  have htext : (Value.put here v (Value.put other w entries)).all (·.1.isText)
      = (Value.put other w (Value.put here v entries)).all (·.1.isText) := by
    simp [Value.put, Value.isText]
  simp only [validate, hcheck, htext]

/-- It makes no difference which of two sections is overridden first. -/
theorem override_override {key' text' : String} (hne : here ≠ other)
    (h : override other key' text' doc = .ok doc') :
    override here key text doc >>= (override other key' text' · >>= validate)
      = override here key text doc' >>= validate := by
  obtain ⟨entries, fields, rfl, hfields, rfl⟩ := override_eq_ok_iff.1 h
  simp only [override, Value.find?_put_of_ne hne.symm]
  split
  · simp only [bind, Except.bind, Value.find?_put_of_ne hne, hfields]
    exact validate_put_put hne.symm _ _
  · rfl

/-! ## Documents and the environment -/

/-- What settings are loaded from before the environment overrides anything. -/
def document (files : Files) : Option String → Except SettingsError Value
  | none => .ok .null
  | some path =>
    match files.found? path.toList with
    | none => .error (.missing path)
    | some .directory => .error (.unreadable ⟨.isDirectory, some path⟩)
    | some (.file text) => (Document.read text).mapError .faulty

theorem load_eq (files : Files) (path : Option String) (o : Overrides) :
    load files path o = document files path >>= (ofDocument · o) := by
  rcases path with _ | path
  · rfl
  · rw [load, document]
    rcases files.found? path.toList with _ | _ | text
    · rfl
    · rfl
    · simp only [ofText]
      cases Document.read text <;> rfl

variable {address : Option String}

theorem overridden_address :
    overridden ⟨some text, none⟩ doc = override "exporter" "address" text doc := by
  simp only [overridden, bind_pure]

theorem overridden_level : overridden ⟨address, some level⟩ doc
    = overridden ⟨address, none⟩ doc >>= override "global" "log_level" level := by
  rcases address with _ | address
  · rfl
  · rw [overridden_address]
    rfl

theorem bySecondName_overridden (h : overridden ⟨address, none⟩ doc = .ok doc') :
    bySecondName doc' = bySecondName doc := by
  rcases address with _ | address
  · cases h
    rfl
  · rw [overridden_address] at h
    obtain ⟨entries, fields, rfl, -, rfl⟩ := override_eq_ok_iff.1 h
    simp only [bySecondName, Value.find?_put_of_ne (by decide : "exporter" ≠ "global"),
      Value.find?_put_of_ne (by decide : "exporter" ≠ "global_")]

theorem bySecondName_of_isVoid (h : doc.isVoid) : bySecondName doc = false := by
  cases doc with
  | mapping entries =>
    cases List.isEmpty_iff.1 h
    rfl
  | _ => rfl

variable {o : Overrides}

theorem ofDocument_level (ho : o.logLevel = none) (h : ofDocument doc o = .ok s)
    (level : String) : ofDocument doc { o with logLevel := level }
      = .ok { s with log := ⟨level, if bySecondName doc then .text else s.log.format⟩ } := by
  obtain ⟨address, l⟩ := o
  cases ho
  have hname : bySecondName (if doc.isVoid then .mapping [] else doc) = bySecondName doc := by
    split_ifs with hvoid
    · rw [bySecondName_of_isVoid hvoid]
      rfl
    · rfl
  obtain ⟨doc', hdoc', hvalid⟩ := except_bind_eq_ok_iff.1 h
  rw [ofDocument, overridden_level, hdoc', ← hname, ← bySecondName_overridden hdoc']
  exact validate_override_level hvalid level

theorem ofDocument_address (ho : o.address = none) (h : ofDocument doc o = .ok s)
    (text : String) :
    (∀ a, Address.read text = .ok a →
      ofDocument doc { o with address := text } = .ok (s.moved text a))
    ∧ ∀ p, Address.read text = .error p → ofDocument doc { o with address := text }
      = .error (.invalid [⟨["exporter", "address"], .address p⟩]) := by
  obtain ⟨address, l⟩ := o
  cases ho
  obtain ⟨doc', hdoc', hvalid⟩ := except_bind_eq_ok_iff.1 h
  have hbefore : ofDocument doc ⟨some text, l⟩
      = override "exporter" "address" text doc' >>= validate := by
    rw [ofDocument]
    generalize (if doc.isVoid then Value.mapping [] else doc) = start at hdoc' ⊢
    rcases l with _ | level
    · cases hdoc'
      rw [overridden_address]
    · rw [overridden_level, overridden_address, bind_assoc]
      exact override_override (by decide) hdoc'
  rw [hbefore]
  exact validate_override_address hvalid text

theorem ofVariables_address {l : Option String} (h : text ≠ "") :
    Overrides.ofVariables (some text) l
      = { Overrides.ofVariables none l with address := text } := by
  simp [Overrides.ofVariables, h]

theorem ofVariables_level (h : level ≠ "") : Overrides.ofVariables address (some level)
    = { Overrides.ofVariables address none with logLevel := level } := by
  simp [Overrides.ofVariables, h]

/-- Settings that can be loaded can be loaded with another log level, which changes nothing but the
level, unless the document names the section on logging by its second name. Then the format that
the document asks for is lost as well. -/
theorem level_overridden {files : Files} {path : Option String} (hlevel : level ≠ "")
    (h : load files path (.ofVariables address none) = .ok s) :
    ∃ doc, document files path = .ok doc
      ∧ load files path (.ofVariables address (some level))
        = .ok { s with log := ⟨level, if bySecondName doc then .text else s.log.format⟩ } := by
  rw [load_eq] at h ⊢
  obtain ⟨doc, hdoc, hload⟩ := except_bind_eq_ok_iff.1 h
  refine ⟨doc, hdoc, ?_⟩
  rw [hdoc, ofVariables_level hlevel]
  exact ofDocument_level rfl hload level

/-- The same two lines make a difference under one name and none under the other. -/
theorem level_overridden_json :
    let files := fun name => Files.ofPaths
      [("c.yaml", name ++ ":\n  log_level: X\n  log_format: json\n")] []
    let s : Settings := { log := ⟨"X", .json⟩ }
    (load (files "global") (some "c.yaml") (.ofVariables none none) = .ok s
      ∧ load (files "global") (some "c.yaml") (.ofVariables none (some "DEBUG"))
        = .ok { s with log := ⟨"DEBUG", .json⟩ })
    ∧ load (files "global_") (some "c.yaml") (.ofVariables none none) = .ok s
      ∧ load (files "global_") (some "c.yaml") (.ofVariables none (some "DEBUG"))
        = .ok { s with log := ⟨"DEBUG", .text⟩ } := by
  intro files s
  have hfirst : load (files "global") (some "c.yaml") (.ofVariables none none) = .ok s := by
    decide +kernel
  have hsecond : load (files "global_") (some "c.yaml") (.ofVariables none none) = .ok s := by
    decide +kernel
  have hnames : (document (files "global") (some "c.yaml")).map bySecondName = .ok false
      ∧ (document (files "global_") (some "c.yaml")).map bySecondName = .ok true := by
    decide +kernel
  have hDEBUG : "DEBUG" ≠ "" := by decide
  obtain ⟨doc, hdoc, hlevel⟩ := level_overridden hDEBUG hfirst
  obtain ⟨doc', hdoc', hlevel'⟩ := level_overridden hDEBUG hsecond
  rw [hdoc, hdoc'] at hnames
  rw [Except.ok.inj hnames.1] at hlevel
  rw [Except.ok.inj hnames.2] at hlevel'
  exact ⟨⟨hfirst, hlevel⟩, hsecond, hlevel'⟩

/-- To set the variable for the address is as good as to give the loaded settings that address. -/
theorem address_overridden {files : Files} {path l : Option String} (htext : text ≠ "")
    (h : load files path (.ofVariables none l) = .ok s) :
    (∀ s', load files path (.ofVariables (some text) l) = .ok s' ↔ s.withAddress text = .ok s')
      ∧ (∀ s', s.withAddress text = .ok s' ↔ ∃ a, Address.read text = .ok a ∧ s' = s.moved text a)
      ∧ (∀ p, Address.read text = .error p → load files path (.ofVariables (some text) l)
        = .error (.invalid [⟨["exporter", "address"], .address p⟩]))
      ∧ ∀ here e, s.exporter.rebuilt here text = .ok e
        ↔ s.withAddress text = .ok { s with exporter := e } := by
  have hvalid := valid_of_load h
  rw [load_eq] at h
  obtain ⟨doc, hdoc, hload⟩ := except_bind_eq_ok_iff.1 h
  obtain ⟨hok, herror⟩ := ofDocument_address rfl hload text
  have hafter : load files path (.ofVariables (some text) l)
      = ofDocument doc { Overrides.ofVariables none l with address := text } := by
    rw [load_eq, hdoc, ofVariables_address htext]
    rfl
  rw [hafter]
  refine ⟨fun s' => ?_, fun s' => withAddress_eq_ok_iff, herror,
    fun here e => rebuilt_eq_ok_iff hvalid⟩
  rcases hread : Address.read text with p | a
  · rw [herror p hread, withAddress_eq_error_iff.2 hread]
    simp
  · rw [hok a hread, withAddress_of_read hread, Except.ok.injEq, Except.ok.injEq]

/-- Settings that the document has as texts are among those that are not replaced. -/
theorem address_overridden_texts :
    let files := Files.ofPaths
      [("c.yaml", "exporter:\n  refresh_interval_s: ' 2.5 '\n  self_metrics: 'off'\n")] []
    let s : Settings := {
      log := { level := "DEBUG" }
      exporter := { interval := .ofUnits false (5 * Binary64.one) 2, selfMetrics := false } }
    load files (some "c.yaml") (.ofVariables none (some "DEBUG")) = .ok s
      ∧ load files (some "c.yaml") (.ofVariables (some "[::1]:9100") (some "DEBUG"))
        = .ok (s.moved "[::1]:9100" ⟨"::1", 9100⟩)
      ∧ load files (some "c.yaml") (.ofVariables (some "::1:9100") (some "DEBUG"))
        = .error (.invalid [⟨["exporter", "address"], .address (.unbracketed "::1:9100")⟩]) := by
  intro files s
  have hload : load files (some "c.yaml") (.ofVariables none (some "DEBUG")) = .ok s := by
    decide +kernel
  obtain ⟨hsame, -, -, -⟩ := address_overridden (by decide : "[::1]:9100" ≠ "") hload
  obtain ⟨-, -, hfailed, -⟩ := address_overridden (by decide : "::1:9100" ≠ "") hload
  exact ⟨hload, (hsame _).2 (withAddress_of_read (by decide)), hfailed _ (by decide)⟩

end Settings

end GaugeConsole
