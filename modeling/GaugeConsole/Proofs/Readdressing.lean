import GaugeConsole.Proofs.Differences
import GaugeConsole.Proofs.Endpoints

/-!
# Settings under another address

Settings that have been loaded are valid (`Settings.Valid`), and they stay so however often they are
given another address. An attempt fails just if its text is no address, and then it leaves the
settings as they were; of the other attempts the last one counts, and nothing but the address shows
that there were any (`Settings.valid_readdressed`).

To give settings another address is to write their section down as it would stand in a document,
with the other address in it, and to check it again (`ExporterSettings.rebuilt`). All but the
address then reads back as it was.
-/

namespace GaugeConsole

open Document (Value)

namespace Checked

variable {α : Type} {here key other : String} {entries : List (Value × Value)} {default : α}
  {read : Value → Except Problem α} {v : Value}

theorem field_put_self {a : α} (h : read v = .ok a) :
    field here (Value.put key v entries) key default read = ok a := by
  rw [field, Value.find?_put_self]
  simp only [h]

theorem field_put_self_of_error {p : Problem} (h : read v = .error p) :
    field here (Value.put key v entries) key default read = failed [⟨[here, key], p⟩] := by
  rw [field, Value.find?_put_self]
  simp only [h]

theorem field_put_of_ne (h : other ≠ key) :
    field here (Value.put other v entries) key default read
      = field here entries key default read := by
  rw [field, field, Value.find?_put_of_ne h]

end Checked

theorem Binary64.zero_lt_one : zero.lt (.ofNat 1) := by decide +kernel

def Address.isRead (text : String) : Bool := (read text).toOption.isSome

theorem Address.isRead_iff {text : String} : isRead text ↔ ∃ a, read text = .ok a := by
  rw [isRead]
  cases read text <;> simp [Except.toOption]

namespace ExporterSettings

variable {e : ExporterSettings} {here text : String} {entries : List (Value × Value)}

theorem readAddress_text {a : Address} (h : Address.read text = .ok a) :
    readAddress (.text text) = .ok (text, a) := by
  simp only [readAddress, Field.text, bind, Except.bind, h]
  rfl

theorem readAddress_text_of_error {p : AddressError} (h : Address.read text = .error p) :
    readAddress (.text text) = .error (.address p) := by
  simp only [readAddress, Field.text, bind, Except.bind, h]
  rfl

/-- What a section says of the other settings counts when its address is replaced. -/
theorem check_put_address (h : check here entries = .ok e) {a : Address}
    (ha : Address.read text = .ok a) :
    check here (Value.put "address" (.text text) entries)
      = .ok { e with address := text, endpoint := a } := by
  simp only [check, Checked.map_eq_ok_iff, Checked.and_eq_ok_iff] at h ⊢
  obtain ⟨⟨replaced, interval, selfMetrics⟩, ⟨-, hinterval, hself⟩, rfl⟩ := h
  refine ⟨((text, a), interval, selfMetrics), ⟨?_, ?_, ?_⟩, rfl⟩
  · exact Checked.field_put_self (readAddress_text ha)
  · rwa [Checked.field_put_of_ne (by decide)]
  · rwa [Checked.field_put_of_ne (by decide)]

theorem check_put_no_address (h : check here entries = .ok e) {p : AddressError}
    (hp : Address.read text = .error p) :
    check here (Value.put "address" (.text text) entries)
      = .failed [⟨[here, "address"], .address p⟩] := by
  simp only [check, Checked.map_eq_ok_iff, Checked.and_eq_ok_iff] at h
  obtain ⟨⟨replaced, interval, selfMetrics⟩, ⟨-, hinterval, hself⟩, rfl⟩ := h
  rw [check, Checked.field_put_self_of_error (readAddress_text_of_error hp),
    Checked.field_put_of_ne (by decide), Checked.field_put_of_ne (by decide), hinterval, hself]
  rfl

/-- The section as it would stand in a document. -/
def fields (e : ExporterSettings) : List (Value × Value) :=
  [(.text "address", .text e.address), (.text "refresh_interval_s", .float e.interval),
    (.text "self_metrics", .bool e.selfMetrics)]

/-- The section written down with another address in it, and checked again. -/
def rebuilt (e : ExporterSettings) (here text : String) : Checked ExporterSettings :=
  check here (Value.put "address" (.text text) e.fields)

/-- What is needed of settings for the metrics to be exposed. -/
structure Valid (e : ExporterSettings) : Prop where
  reads : e.Reads
  port_le : e.endpoint.port ≤ Address.maxPort
  positive : Binary64.zero.lt e.interval
  isNumber : e.interval ≠ .nan

theorem valid_iff : e.Valid ↔ e.Reads ∧ Binary64.zero.lt e.interval := by
  constructor
  · exact fun h => ⟨h.reads, h.positive⟩
  · rintro ⟨hreads, hpositive⟩
    refine ⟨hreads, (Address.namedBy_of_read hreads).bounded, hpositive, fun hnan => ?_⟩
    rw [hnan, Binary64.lt_nan] at hpositive
    cases hpositive

theorem lt_of_positive {v : Value} {x : Binary64} (h : Field.positive v = .ok x) :
    Binary64.zero.lt x := by
  obtain ⟨y, -, h⟩ := except_bind_eq_ok_iff.1 h
  split_ifs at h with hpositive
  cases h
  exact hpositive

theorem valid_default : ({} : ExporterSettings).Valid := by
  refine valid_iff.2 ⟨reads_default, ?_⟩
  dsimp only
  exact Binary64.zero_lt_one

theorem valid_of_check (h : check here entries = .ok e) : e.Valid := by
  refine valid_iff.2 ⟨reads_of_check h, ?_⟩
  simp only [check, Checked.map_eq_ok_iff, Checked.and_eq_ok_iff] at h
  obtain ⟨⟨address, interval, selfMetrics⟩, ⟨-, hinterval, -⟩, rfl⟩ := h
  exact Checked.of_field (P := fun x => Binary64.zero.lt x) hinterval Binary64.zero_lt_one
    fun _ _ => lt_of_positive

/-- Valid settings read back from a document as they are. -/
theorem check_fields (h : e.Valid) : check here e.fields = .ok e := by
  have haddress := readAddress_text h.reads
  have hinterval : Field.positive (.float e.interval) = .ok e.interval := by
    exact if_pos h.positive
  simp [check, Checked.field, fields, Value.find?, haddress, hinterval, Field.truth, Checked.and,
    Checked.map]

theorem rebuilt_eq_ok_iff (h : e.Valid) {e' : ExporterSettings} :
    e.rebuilt here text = .ok e'
      ↔ ∃ a, Address.read text = .ok a ∧ e' = { e with address := text, endpoint := a } := by
  rw [rebuilt]
  rcases hread : Address.read text with p | a
  · simp [check_put_no_address (check_fields h) hread]
  · simp [check_put_address (check_fields h) hread, eq_comm]

end ExporterSettings

namespace Settings

variable {s s' : Settings} {text other : String} {a b : Address}

/-- The settings with another address, and nothing else changed. -/
def moved (s : Settings) (text : String) (a : Address) : Settings :=
  { s with exporter := { s.exporter with address := text, endpoint := a } }

theorem withAddress_eq : s.withAddress text = (Address.read text).map (s.moved text) := by
  rw [withAddress]
  cases Address.read text <;> rfl

theorem withAddress_eq_error_iff {p : AddressError} :
    s.withAddress text = .error p ↔ Address.read text = .error p := by
  rw [withAddress_eq]
  cases Address.read text <;> simp [Except.map]

theorem withAddress_of_read (h : Address.read text = .ok a) :
    s.withAddress text = .ok (s.moved text a) := by
  rw [withAddress_eq, h]
  rfl

theorem withAddress_moved : (s.moved text a).withAddress other = s.withAddress other := by
  rw [withAddress_eq, withAddress_eq]
  rfl

structure Valid (s : Settings) : Prop where
  exporter : s.exporter.Valid
  format : s.log.format.word = "json" ∨ s.log.format.word = "text"

theorem valid_iff : s.Valid ↔ s.exporter.Valid := by
  refine ⟨Valid.exporter, fun h => ⟨h, ?_⟩⟩
  cases s.log.format
  · exact .inl rfl
  · exact .inr rfl

theorem valid_of_check {entries : List (Value × Value)} (h : check entries = .ok s) :
    s.Valid := by
  simp only [check, Checked.map_eq_ok_iff, Checked.and_eq_ok_iff] at h
  obtain ⟨⟨log, exporter, prompt⟩, ⟨-, hexporter, -⟩, rfl⟩ := h
  exact valid_iff.2 (Checked.of_group hexporter ExporterSettings.valid_default
    fun _ _ _ => ExporterSettings.valid_of_check)

theorem valid_of_load {files : Files} {path : Option String} {o : Overrides}
    (h : load files path o = .ok s) : s.Valid := by
  obtain ⟨entries, hcheck⟩ := exists_check_of_load h
  exact valid_of_check hcheck

theorem Valid.moved (h : s.Valid) (ha : Address.read text = .ok a) : (s.moved text a).Valid :=
  valid_iff.2 (ExporterSettings.valid_iff.2 ⟨ha, h.exporter.positive⟩)

theorem rebuilt_eq_ok_iff (h : s.Valid) {here : String} {e : ExporterSettings} :
    s.exporter.rebuilt here text = .ok e ↔ s.withAddress text = .ok { s with exporter := e } := by
  rw [ExporterSettings.rebuilt_eq_ok_iff h.exporter, withAddress_eq_ok_iff]
  refine exists_congr fun a => and_congr_right fun _ => ?_
  simp only [Settings.mk.injEq, true_and, and_true]

/-! ## One attempt after the other -/

/-- The settings after attempts to give them other addresses, of which a failed one changes
nothing. -/
def readdressed (s : Settings) (texts : List String) : Settings :=
  texts.foldl (fun s text => (s.withAddress text).toOption.getD s) s

theorem readdressed_cons_of_read {texts : List String} (h : Address.read text = .ok a) :
    s.readdressed (text :: texts) = (s.moved text a).readdressed texts := by
  rw [readdressed, List.foldl_cons, withAddress_of_read h]
  rfl

theorem readdressed_cons_of_error {texts : List String} {p : AddressError}
    (h : Address.read text = .error p) : s.readdressed (text :: texts) = s.readdressed texts := by
  rw [readdressed, List.foldl_cons, withAddress_eq_error_iff.2 h]
  rfl

theorem Valid.readdressed : ∀ (texts : List String) {s : Settings}, s.Valid →
    (s.readdressed texts).Valid
  | [], _, h => h
  | text :: texts, s, h => by
    rcases hread : Address.read text with p | a
    · rw [readdressed_cons_of_error hread]
      exact Valid.readdressed texts h
    · rw [readdressed_cons_of_read hread]
      exact Valid.readdressed texts (h.moved hread)

/-- Attempts change nothing but the address, which is the last one that could be read. -/
theorem readdressed_eq : ∀ (texts : List String) {s : Settings},
    s.readdressed texts
        = s.moved (s.readdressed texts).exporter.address (s.readdressed texts).exporter.endpoint
      ∧ (s.readdressed texts).exporter.address
        = (texts.filter Address.isRead).getLast?.getD s.exporter.address
  | [], _ => ⟨rfl, rfl⟩
  | text :: texts, s => by
    rcases hread : Address.read text with p | a
    · have hno : ¬Address.isRead text := by simp [Address.isRead_iff, hread]
      rw [readdressed_cons_of_error hread, List.filter_cons_of_neg hno]
      exact readdressed_eq texts
    · have hyes : Address.isRead text := Address.isRead_iff.2 ⟨a, hread⟩
      obtain ⟨hmoved, hlast⟩ := readdressed_eq texts (s := s.moved text a)
      rw [readdressed_cons_of_read hread, List.filter_cons_of_pos hyes, List.getLast?_cons]
      exact ⟨hmoved, hlast⟩

/-- Attempts all succeed just if each of their texts can be read. -/
theorem foldlM_withAddress_eq_ok_iff : ∀ (texts : List String) {s s' : Settings},
    texts.foldlM withAddress s = .ok s'
      ↔ texts.all Address.isRead ∧ s' = s.readdressed texts
  | [], s, s' => by simp [readdressed, pure, Except.pure, eq_comm]
  | text :: texts, s, s' => by
    rw [List.foldlM_cons, List.all_cons]
    rcases hread : Address.read text with p | a
    · have hno : Address.isRead text = false := by simp [Address.isRead, hread, Except.toOption]
      rw [withAddress_eq_error_iff.2 hread, hno]
      simp [bind, Except.bind]
    · have hyes : Address.isRead text := Address.isRead_iff.2 ⟨a, hread⟩
      rw [withAddress_of_read hread, hyes, readdressed_cons_of_read hread, Bool.true_and]
      exact foldlM_withAddress_eq_ok_iff texts

/-- Settings that have been loaded are valid, and so they are after any attempts to give them other
addresses. Attempts that succeed come to what the last one comes to by itself. -/
theorem valid_readdressed {files : Files} {path address level : Option String} {s : Settings}
    (h : load files path (.ofVariables address level) = .ok s) (texts : List String) :
    let t := s.readdressed texts
    t.Valid
      ∧ t = s.moved t.exporter.address t.exporter.endpoint
      ∧ t.exporter.address = (texts.filter Address.isRead).getLast?.getD s.exporter.address
      ∧ (∀ s', texts.foldlM withAddress s = .ok s' ↔ texts.all Address.isRead ∧ s' = t)
      ∧ (∀ text p, t.withAddress text = .error p ↔ Address.read text = .error p)
      ∧ (∀ text s', t.withAddress text = .ok s' →
        ∀ other, s'.withAddress other = t.withAddress other)
      ∧ ∀ here text e, t.exporter.rebuilt here text = .ok e
        ↔ t.withAddress text = .ok { t with exporter := e } := by
  intro t
  have hvalid : t.Valid := (valid_of_load h).readdressed texts
  obtain ⟨hmoved, hlast⟩ := readdressed_eq texts (s := s)
  refine ⟨hvalid, hmoved, hlast, fun s' => foldlM_withAddress_eq_ok_iff texts,
    fun text p => withAddress_eq_error_iff, fun text s' hs' other => ?_,
    fun here text e => rebuilt_eq_ok_iff hvalid⟩
  obtain ⟨a, -, rfl⟩ := withAddress_eq_ok_iff.1 hs'
  exact withAddress_moved

/-- An interval without an end is one of the settings that are read again. -/
theorem valid_readdressed_endless :
    let files := Files.ofPaths
      [("c.yaml", "exporter:\n  refresh_interval_s: .inf\n  self_metrics: 'off'\n")] []
    let s : Settings :=
      { exporter := ⟨"[::1]:9100", ⟨"::1", 9100⟩, .infinite false, false⟩ }
    let t := s.readdressed ["h:1", "nowhere", "h:2", ":3"]
    load files (some "c.yaml") (.ofVariables (some "[::1]:9100") none) = .ok s
      ∧ t.Valid ∧ t = s.moved "h:2" ⟨"h", 2⟩
      ∧ t.exporter.rebuilt "exporter" "h:4" = .ok (s.moved "h:4" ⟨"h", 4⟩).exporter := by
  intro files s t
  have hload : load files (some "c.yaml") (.ofVariables (some "[::1]:9100") none) = .ok s := by
    decide +kernel
  have ht : t = s.moved "h:2" ⟨"h", 2⟩ := by decide
  obtain ⟨hvalid, -, -, -, -, -, hrebuilt⟩ :=
    valid_readdressed hload ["h:1", "nowhere", "h:2", ":3"]
  refine ⟨hload, hvalid, ht, (hrebuilt _ _ _).2 ?_⟩
  exact withAddress_of_read (by decide)

end Settings

end GaugeConsole
