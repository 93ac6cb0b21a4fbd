import GaugeConsole.Proofs.Overrides

/-!
# How loading fails

A document whose settings cannot be used is rejected, and the complaints name settings or sections
that are in it (`Settings.Rejection`). There is one other way to fail for a document that can be
read: the environment overrides a setting that the document has no room for, because the section is
no mapping or the document itself is none. Then it is not the document that is complained of, even
if it would have been rejected for that very section (`Settings.load_fails_as_told`).
-/

namespace GaugeConsole

open Document (Value)

/-- What stands in a document behind some keys, each in the mapping behind those before. -/
def Document.Value.follow? : Value → List String → Option Value
  | v, [] => some v
  | .mapping entries, key :: keys => (find? key entries).bind (·.follow? keys)
  | _, _ :: _ => none

namespace Checked

variable {α β : Type} {P Q : Complaint → Prop} {c : Checked α} {d : Checked β} {default : α}
  {entries : List (Value × Value)}

/-- If the check fails, it complains of something, and all its complaints are of some kind. -/
def Within (P : Complaint → Prop) : Checked α → Prop
  | ok _ => True
  | failed cs => cs ≠ [] ∧ ∀ c ∈ cs, P c

theorem Within.imp (h : c.Within P) (hPQ : ∀ c, P c → Q c) : c.Within Q := by
  cases c with
  | ok a => trivial
  | failed cs => exact ⟨h.1, fun c hc => hPQ c (h.2 c hc)⟩

theorem Within.map (h : c.Within P) (f : α → β) : (c.map f).Within P := by
  cases c with
  | ok a => trivial
  | failed cs => exact h

theorem Within.and (hc : c.Within P) (hd : d.Within P) : (c.and d).Within P := by
  rcases c with a | cs <;> rcases d with b | ds
  · trivial
  · exact hd
  · exact hc
  · exact ⟨by simp [hc.1], List.forall_mem_append.2 ⟨hc.2, hd.2⟩⟩

theorem within_field {here key : String} {read : Value → Except Problem α} :
    (field here entries key default read).Within fun c =>
      c.place = [here, key] ∧ (Value.find? key entries).isSome := by
  rw [field]
  rcases hfound : Value.find? key entries with _ | v
  · trivial
  · rcases hread : read v with p | a <;> simp only [hread]
    · exact ⟨by simp, by simp⟩
    · trivial

theorem within_group {names : List String} {read : String → List (Value × Value) → Checked α}
    (hsection : ∀ name ∈ names, (Value.find? name entries).isSome → P ⟨[name], .notSection⟩)
    (hread : ∀ name ∈ names, ∀ fields, Value.find? name entries = some (.mapping fields) →
      (read name fields).Within P) : (group entries names default read).Within P := by
  rw [group]
  rcases hfound : names.findSome? fun name => (Value.find? name entries).map (name, ·)
    with _ | ⟨name, v⟩
  · trivial
  obtain ⟨name', hname, hpair⟩ := List.exists_of_findSome?_eq_some hfound
  obtain ⟨v', hv, heq⟩ := Option.map_eq_some_iff.1 hpair
  obtain ⟨rfl, rfl⟩ := Prod.mk.inj heq
  cases v' with
  | mapping fields => exact hread name' hname fields hv
  | _ =>
    have hcomplaint := hsection name' hname (by rw [hv]; rfl)
    exact ⟨List.cons_ne_nil _ _, List.forall_mem_singleton.2 hcomplaint⟩

end Checked

namespace Settings

/-- The names of each section, and the settings in it. -/
def sections : List (List String × List String) :=
  [(logSections, ["log_level", "log_format"]),
    (["exporter"], ["address", "refresh_interval_s", "self_metrics"]),
    (["shell"], ["prompt", "history_file", "history_length"])]

/-- The keys lead to a section or to a setting. -/
def IsPlace (keys : List String) : Prop :=
  ∃ s ∈ sections, ∃ name ∈ s.1, keys = [name] ∨ ∃ key ∈ s.2, keys = [name, key]

/-- A complaint of something that stands in the document. -/
def Concerns (doc : Value) (c : Complaint) : Prop :=
  IsPlace c.place ∧ (doc.follow? c.place).isSome

variable {α : Type} {entries : List (Value × Value)} {here key text : String} {doc doc' : Value}
  {e : SettingsError} {o : Overrides}

theorem within_section {s : List String × List String} (hs : s ∈ sections) {default : α}
    {read : String → List (Value × Value) → Checked α}
    (hread : ∀ name fields, (read name fields).Within fun c =>
      ∃ key ∈ s.2, c.place = [name, key] ∧ (Value.find? key fields).isSome) :
    (Checked.group entries s.1 default read).Within (Concerns (.mapping entries)) := by
  refine Checked.within_group (fun name hname hfound => ?_) fun name hname fields hfields => ?_
  · exact ⟨⟨s, hs, name, hname, .inl rfl⟩, by simpa [Value.follow?] using hfound⟩
  · refine (hread name fields).imp fun c ⟨key, hkey, hplace, hfound⟩ => ?_
    rw [Concerns, hplace]
    exact ⟨⟨s, hs, name, hname, .inr ⟨key, hkey, rfl⟩⟩, by simpa [Value.follow?, hfields]⟩

theorem within_check : (check entries).Within (Concerns (.mapping entries)) := by
  refine ((within_section (s := (logSections, ["log_level", "log_format"])) (by simp [sections])
    fun name fields => ?_).and ((within_section
      (s := (["exporter"], ["address", "refresh_interval_s", "self_metrics"]))
      (by simp [sections]) fun name fields => ?_).and (within_section
        (s := (["shell"], ["prompt", "history_file", "history_length"]))
        (by simp [sections]) fun name fields => ?_))).map _
  · exact ((Checked.within_field.imp fun c h => ⟨_, by simp, h⟩).and
      (Checked.within_field.imp fun c h => ⟨_, by simp, h⟩)).map _
  all_goals exact ((Checked.within_field.imp fun c h => ⟨_, by simp, h⟩).and
    ((Checked.within_field.imp fun c h => ⟨_, by simp, h⟩).and
      (Checked.within_field.imp fun c h => ⟨_, by simp, h⟩))).map _

/-- Why a document is rejected. -/
inductive Rejection : Value → SettingsError → Prop
  | notMapping {doc : Value} : (∀ entries, doc ≠ .mapping entries) →
      Rejection doc (.notMapping doc.typeName)
  | keyNotText {entries : List (Value × Value)} : (∃ e ∈ entries, e.1.isText = false) →
      Rejection (.mapping entries) .keyNotText
  | invalid {entries : List (Value × Value)} {complaints : List Complaint} : complaints ≠ [] →
      (∀ c ∈ complaints, Concerns (.mapping entries) c) →
      Rejection (.mapping entries) (.invalid complaints)

theorem Rejection.message_eq (h : Rejection doc e) :
    ∃ cause, e.message = SettingsError.failed cause := by
  cases h <;> exact ⟨_, rfl⟩

theorem rejection_of_validate (h : validate doc = .error e) : Rejection doc e := by
  unfold validate at h
  split at h
  · rename_i entries
    have hwithin : (check entries).Within (Concerns (.mapping entries)) := within_check
    split_ifs at h with htext
    · split at h
      · cases h
      · rename_i hcheck
        cases h
        rw [hcheck] at hwithin
        exact .invalid hwithin.1 hwithin.2
    · cases h
      exact .keyNotText (by simpa using htext)
  · rename_i hmapping
    cases h
    exact .notMapping hmapping

/-! ## Overrides -/

/-- A document that says nothing is as good as an empty mapping. -/
def filled (doc : Value) : Value := if doc.isVoid then .mapping [] else doc

/-- The document is a mapping, and so is a section, if it is there. -/
def HasRoom (here : String) (doc : Value) : Prop :=
  ∃ entries fields, doc = .mapping entries
    ∧ (Value.find? here entries).getD (.mapping []) = .mapping fields

/-- Whether a value is a mapping. -/
def isMapping : Value → Bool
  | .mapping _ => true
  | _ => false

theorem isMapping_iff {v : Value} : isMapping v ↔ ∃ fields, v = .mapping fields := by
  cases v <;> simp [isMapping]

theorem hasRoom_mapping : HasRoom here (.mapping entries)
    ↔ ∃ fields, (Value.find? here entries).getD (.mapping []) = .mapping fields :=
  ⟨fun ⟨_, fields, hentries, h⟩ => ⟨fields, by cases hentries; exact h⟩,
    fun ⟨fields, h⟩ => ⟨entries, fields, rfl, h⟩⟩

instance (here : String) : ∀ doc : Value, Decidable (HasRoom here doc)
  | .mapping _ => decidable_of_iff' _ (hasRoom_mapping.trans isMapping_iff.symm)
  | .null | .bool _ | .int _ | .float _ | .text _ | .bytes _ | .date _ | .list _ | .set _ =>
    isFalse fun ⟨_, _, h, _⟩ => by cases h

/-- What comes of a text that there is no room for. -/
def misfit (here : String) : Value → SettingsError
  | .mapping entries => .noFields ((Value.find? here entries).getD (.mapping [])).typeName
  | doc => .noSections doc.typeName

theorem override_of_not_hasRoom (h : ¬ HasRoom here doc) :
    override here key text doc = .error (misfit here doc) := by
  cases doc with
  | mapping entries =>
    unfold override misfit
    dsimp only
    split
    · rename_i hfields
      exact absurd ⟨_, _, rfl, hfields⟩ h
    · rfl
  | _ => rfl

/-- Where there is room, a text is put in, and the other sections are as they were. -/
theorem override_of_hasRoom (h : HasRoom here doc) (key text : String) :
    ∃ doc', override here key text doc = .ok doc' ∧ ∀ other, here ≠ other →
      (HasRoom other doc' ↔ HasRoom other doc) ∧ misfit other doc' = misfit other doc := by
  obtain ⟨entries, fields, rfl, hfields⟩ := h
  refine ⟨_, override_eq_ok_iff.2 ⟨_, _, rfl, hfields, rfl⟩, fun other hne => ?_⟩
  have hfind := Value.find?_put_of_ne hne
    (.mapping (Value.put key (.text text) fields)) entries
  constructor
  · rw [hasRoom_mapping, hasRoom_mapping, hfind]
  · simp only [misfit, hfind]

/-- There is room for all that the environment says. -/
def Admits (doc : Value) (o : Overrides) : Prop :=
  (o.address.isSome → HasRoom "exporter" doc) ∧ (o.logLevel.isSome → HasRoom "global" doc)

theorem overridden_of_not_hasRoom (haddress : o.address.isSome) (h : ¬ HasRoom "exporter" doc) :
    overridden o doc = .error (misfit "exporter" doc) := by
  obtain ⟨address, level⟩ := o
  obtain ⟨text, rfl⟩ := Option.isSome_iff_exists.1 haddress
  simp only [overridden, override_of_not_hasRoom h]
  rfl

theorem exists_overridden_address {address : Option String}
    (h : address.isSome → HasRoom "exporter" doc) :
    ∃ doc', overridden ⟨address, none⟩ doc = .ok doc'
      ∧ (HasRoom "global" doc' ↔ HasRoom "global" doc)
      ∧ misfit "global" doc' = misfit "global" doc := by
  rcases address with _ | text
  · exact ⟨doc, rfl, .rfl, rfl⟩
  · obtain ⟨doc', hdoc', hother⟩ := override_of_hasRoom (h rfl) "address" text
    exact ⟨doc', overridden_address.trans hdoc', hother "global" (by decide)⟩

theorem overridden_of_not_hasRoom_level (haddress : o.address.isSome → HasRoom "exporter" doc)
    (hlevel : o.logLevel.isSome) (h : ¬ HasRoom "global" doc) :
    overridden o doc = .error (misfit "global" doc) := by
  obtain ⟨address, level⟩ := o
  obtain ⟨level, rfl⟩ := Option.isSome_iff_exists.1 hlevel
  obtain ⟨doc', hdoc', hroom, hmisfit⟩ := exists_overridden_address haddress
  rw [overridden_level, hdoc', ← hmisfit]
  exact override_of_not_hasRoom (hroom.not.2 h)

theorem exists_overridden (h : Admits doc o) : ∃ doc', overridden o doc = .ok doc' := by
  obtain ⟨address, level⟩ := o
  obtain ⟨doc', hdoc', hroom, -⟩ := exists_overridden_address h.1
  rcases level with _ | level
  · exact ⟨doc', hdoc'⟩
  · obtain ⟨doc'', hdoc'', -⟩ := override_of_hasRoom (hroom.2 (h.2 rfl)) "log_level" level
    exact ⟨doc'', by rw [overridden_level, hdoc']; exact hdoc''⟩

/-! ## Loading -/

theorem ofDocument_eq : ofDocument doc o = overridden o (filled doc) >>= validate := rfl

/-- A document that can be read is used, or it fails in one of two ways. -/
theorem ofDocument_cases (doc : Value) (o : Overrides) :
    (∃ s, ofDocument doc o = .ok s) ∨ (∃ here, ofDocument doc o = .error (misfit here (filled doc)))
      ∨ ∃ doc' e, ofDocument doc o = .error e ∧ Rejection doc' e := by
  rw [ofDocument_eq]
  by_cases haddress : o.address.isSome → HasRoom "exporter" (filled doc)
  · by_cases hlevel : o.logLevel.isSome → HasRoom "global" (filled doc)
    · obtain ⟨doc', hdoc'⟩ := exists_overridden ⟨haddress, hlevel⟩
      rcases hvalid : validate doc' with e | s
      · exact .inr (.inr ⟨doc', e, by rw [hdoc']; exact hvalid, rejection_of_validate hvalid⟩)
      · exact .inl ⟨s, by rw [hdoc']; exact hvalid⟩
    · rw [Classical.not_imp] at hlevel
      exact .inr (.inl ⟨_, by rw [overridden_of_not_hasRoom_level haddress hlevel.1 hlevel.2]; rfl⟩)
  · rw [Classical.not_imp] at haddress
    exact .inr (.inl ⟨_, by rw [overridden_of_not_hasRoom haddress.1 haddress.2]; rfl⟩)

theorem misfit_ne_missing (here path : String) (doc : Value) : misfit here doc ≠ .missing path := by
  unfold misfit
  split <;> simp

theorem load_eq_missing_iff {files : Files} {path : Option String} {p : String} :
    load files path o = .error (.missing p) ↔ path = some p ∧ files.found? p.toList = none := by
  have hdocument : ∀ doc, ofDocument doc o ≠ .error (.missing p) := by
    intro doc h
    obtain ⟨s, hs⟩ | ⟨here, hfit⟩ | ⟨doc', e, he, hrejection⟩ := ofDocument_cases doc o
    · cases hs.symm.trans h
    · exact misfit_ne_missing here p (filled doc) (Except.error.inj (hfit.symm.trans h))
    · cases he.symm.trans h
      cases hrejection
  constructor
  · intro h
    unfold load at h
    split at h
    · exact absurd h (hdocument .null)
    · split at h
      · cases h
        exact ⟨rfl, ‹_›⟩
      · cases h
      · unfold ofText at h
        split at h
        · exact absurd h (hdocument _)
        · cases h
  · rintro ⟨rfl, hmissing⟩
    rw [load, hmissing]

/-- Loading tells of a missing file only if the file is missing. A document that can be read is used
or rejected, unless there is no room for what the environment overrides; then the address is tried
before the log level. -/
theorem load_fails_as_told (files : Files) (path : Option String) (o : Overrides) :
    (∀ p, load files path o = .error (.missing p) ↔ path = some p ∧ files.found? p.toList = none)
      ∧ ∀ doc, document files path = .ok doc →
        (Admits (filled doc) o → ∃ doc', overridden o (filled doc) = .ok doc'
          ∧ ((∃ s, load files path o = .ok s) ∨ ∃ e, load files path o = .error e
            ∧ Rejection doc' e ∧ ∃ cause, e.message = SettingsError.failed cause))
        ∧ (o.address.isSome → ¬ HasRoom "exporter" (filled doc) →
          load files path o = .error (misfit "exporter" (filled doc)))
        ∧ ((o.address.isSome → HasRoom "exporter" (filled doc)) → o.logLevel.isSome →
          ¬ HasRoom "global" (filled doc) →
            load files path o = .error (misfit "global" (filled doc))) := by
  refine ⟨fun p => load_eq_missing_iff, fun doc hdoc => ?_⟩
  have hload : load files path o = overridden o (filled doc) >>= validate := by
    rw [load_eq, hdoc]
    rfl
  rw [hload]
  refine ⟨fun hadmits => ?_, fun haddress hroom => ?_, fun haddress hlevel hroom => ?_⟩
  · obtain ⟨doc', hdoc'⟩ := exists_overridden hadmits
    refine ⟨doc', hdoc', ?_⟩
    rw [hdoc']
    change (∃ s, validate doc' = .ok s) ∨ ∃ e, validate doc' = .error e ∧ _
    rcases hvalid : validate doc' with e | s
    · have hrejection := rejection_of_validate hvalid
      exact .inr ⟨e, rfl, hrejection, hrejection.message_eq⟩
    · exact .inl ⟨s, rfl⟩
  · rw [overridden_of_not_hasRoom haddress hroom]
    rfl
  · rw [overridden_of_not_hasRoom_level haddress hlevel hroom]
    rfl

/-- An empty section is complained of, until an address is to be put in it. -/
theorem load_fails_as_told_empty_section :
    let files := Files.ofPaths [("c.yaml", "exporter:\n")] []
    load files (some "c.yaml") {} = .error (.invalid [⟨["exporter"], .notSection⟩])
      ∧ load files (some "c.yaml") { address := "h:1" } = .error (.noFields "NoneType")
      ∧ load files (some "d.yaml") { address := "h:1" } = .error (.missing "d.yaml") := by
  intro files
  have hread : (document files (some "c.yaml") >>= fun doc =>
      .ok (decide (HasRoom "exporter" (filled doc)), misfit "exporter" (filled doc)))
      = .ok (false, .noFields "NoneType") := by
    decide +kernel
  obtain ⟨doc, hdoc, hpair⟩ := except_bind_eq_ok_iff.1 hread
  obtain ⟨hroom, hmisfit⟩ := Prod.mk.inj (Except.ok.inj hpair)
  obtain ⟨-, htold⟩ := load_fails_as_told files (some "c.yaml") { address := "h:1" }
  obtain ⟨hmissing, -⟩ := load_fails_as_told files (some "d.yaml") { address := "h:1" }
  obtain ⟨-, haddress, -⟩ := htold _ hdoc
  rw [hmisfit] at haddress
  exact ⟨by decide +kernel, haddress rfl (of_decide_eq_false hroom),
    (hmissing _).2 ⟨rfl, by decide +kernel⟩⟩

end Settings

end GaugeConsole
