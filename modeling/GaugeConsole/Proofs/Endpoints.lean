import GaugeConsole.Settings
import GaugeConsole.Proofs.Addresses

/-!
# Where the metrics are exposed

However settings come about, the endpoint in them is what their address is read as
(`ExporterSettings.Reads`): a check gives the default, of which it is true, or what it has read. The
endpoint has a port that can be bound. It has a host as well unless the address has nothing in its
brackets (`Settings.endpoints_named`).
-/

namespace GaugeConsole

open Document (Value)

theorem except_bind_eq_ok_iff {ε α β : Type} {x : Except ε α} {f : α → Except ε β} {b : β} :
    x >>= f = .ok b ↔ ∃ a, x = .ok a ∧ f a = .ok b := by
  cases x <;> simp [bind, Except.bind]

namespace Checked

variable {α β : Type}

theorem map_eq_ok_iff {f : α → β} {c : Checked α} {b : β} :
    c.map f = ok b ↔ ∃ a, c = ok a ∧ f a = b := by
  cases c <;> simp [map]

theorem and_eq_ok_iff {c : Checked α} {d : Checked β} {p : α × β} :
    c.and d = ok p ↔ c = ok p.1 ∧ d = ok p.2 := by
  cases c <;> cases d <;> simp [and, Prod.ext_iff]

variable {P : α → Prop} {default a : α} {here : String} {entries : List (Value × Value)}

theorem of_field {key : String} {read : Value → Except Problem α}
    (h : field here entries key default read = ok a) (hdefault : P default)
    (hread : ∀ v b, read v = .ok b → P b) : P a := by
  unfold field at h
  split at h
  · cases h
    exact hdefault
  · split at h
    · cases h
      exact hread _ _ ‹_›
    · cases h

theorem of_group {names : List String} {read : String → List (Value × Value) → Checked α}
    (h : group entries names default read = ok a) (hdefault : P default)
    (hread : ∀ name fields b, read name fields = ok b → P b) : P a := by
  unfold group at h
  split at h
  · cases h
    exact hdefault
  · exact hread _ _ _ h
  · cases h

end Checked

namespace Address

/-- What a text says of the address that is read from it: the port is in range, and there is a host
unless the text begins with empty brackets and has no colon behind theirs. -/
structure NamedBy (a : Address) (s : String) : Prop where
  bounded : a.port ≤ maxPort
  hostless_iff : a.host = "" ↔ ∃ t, s = "[]:" ++ t ∧ ':' ∉ t.toList

theorem namedBy_of_read {s : String} {a : Address} (h : read s = .ok a) : a.NamedBy s := by
  obtain ⟨before, t, hs, hne, hhost, hport⟩ := read_eq_ok_iff_parts.1 h
  refine ⟨hport.bounded, fun hempty => ?_, ?_⟩
  · rw [hempty] at hhost
    have hbefore : before = ['[', ']'] := by
      rcases host?_eq_some_iff.1 hhost with hbrackets | ⟨hnil, -⟩
      · exact hbrackets
      · exact absurd hnil hne
    exact ⟨t, String.toList_injective (by simp [hs, hbefore]), hport.colonless⟩
  · rintro ⟨u, rfl, hu⟩
    -- both ways to take the text apart do so at its last colon
    have hsplit : splitLast ':' ("[]:" ++ u).toList = some (['[', ']'], u.toList) := by
      simpa using splitLast_append hu ['[', ']']
    rw [hs, splitLast_append hport.colonless, Option.some.injEq, Prod.mk.injEq] at hsplit
    rw [hsplit.1] at hhost
    exact String.toList_injective (Option.some.inj hhost).symm

end Address

namespace ExporterSettings

/-- The endpoint is what the address is read as. -/
def Reads (e : ExporterSettings) : Prop := Address.read e.address = .ok e.endpoint

theorem reads_default : ({} : ExporterSettings).Reads := by
  unfold Reads
  decide

theorem read_of_readAddress {v : Value} {p : String × Address} (h : readAddress v = .ok p) :
    Address.read p.1 = .ok p.2 := by
  obtain ⟨text, -, h⟩ := except_bind_eq_ok_iff.1 h
  split at h
  · cases h
    assumption
  · cases h

theorem reads_of_check {here : String} {entries : List (Value × Value)} {e : ExporterSettings}
    (h : check here entries = .ok e) : e.Reads := by
  simp only [check, Checked.map_eq_ok_iff, Checked.and_eq_ok_iff] at h
  obtain ⟨⟨⟨address, endpoint⟩, interval, selfMetrics⟩, ⟨haddress, -, -⟩, rfl⟩ := h
  exact Checked.of_field (P := fun p : String × Address => Address.read p.1 = .ok p.2) haddress
    reads_default fun _ _ => read_of_readAddress

end ExporterSettings

namespace Settings

variable {o : Overrides} {s : Settings}

theorem reads_of_check {entries : List (Value × Value)} (h : check entries = .ok s) :
    s.exporter.Reads := by
  simp only [check, Checked.map_eq_ok_iff, Checked.and_eq_ok_iff] at h
  obtain ⟨⟨log, exporter, prompt⟩, ⟨-, hexporter, -⟩, rfl⟩ := h
  exact Checked.of_group hexporter ExporterSettings.reads_default
    fun _ _ _ => ExporterSettings.reads_of_check

/-! Settings have passed the check of some document, wherever it came from. -/

theorem exists_check_of_ofDocument {doc : Value} (h : ofDocument doc o = .ok s) :
    ∃ entries, check entries = .ok s := by
  obtain ⟨doc, -, h⟩ := except_bind_eq_ok_iff.1 h
  unfold validate at h
  split at h
  · split_ifs at h
    split at h
    · cases h
      exact ⟨_, ‹_›⟩
    · cases h
  · cases h

theorem exists_check_of_load {files : Files} {path : Option String}
    (h : load files path o = .ok s) : ∃ entries, check entries = .ok s := by
  unfold load at h
  split at h
  · exact exists_check_of_ofDocument h
  · split at h
    · cases h
    · cases h
    · unfold ofText at h
      split at h
      · exact exists_check_of_ofDocument h
      · cases h

theorem withAddress_eq_ok_iff {text : String} {s' : Settings} :
    s.withAddress text = .ok s' ↔ ∃ a, Address.read text = .ok a
      ∧ s' = { s with exporter := { s.exporter with address := text, endpoint := a } } := by
  rw [withAddress]
  cases Address.read text <;> simp [eq_comm]

/-- Any address that is read, and so the endpoint of any settings, has a port that can be bound and
has no host just if the brackets for it are empty. -/
theorem endpoints_named (text : String) (files : Files) (path : Option String) (o : Overrides)
    (s : Settings) :
    (∀ a, Address.read text = .ok a → a.NamedBy text)
      ∧ (load files path o = .ok s →
          s.exporter.Reads ∧ s.exporter.endpoint.NamedBy s.exporter.address)
      ∧ ∀ s', s.withAddress text = .ok s' →
          s'.exporter.address = text ∧ s'.exporter.Reads ∧ s'.exporter.endpoint.NamedBy text := by
  refine ⟨fun a => Address.namedBy_of_read, fun h => ?_, fun s' h => ?_⟩
  · obtain ⟨entries, hcheck⟩ := exists_check_of_load h
    have hreads := reads_of_check hcheck
    exact ⟨hreads, Address.namedBy_of_read hreads⟩
  · obtain ⟨a, hread, rfl⟩ := withAddress_eq_ok_iff.1 h
    exact ⟨rfl, hread, Address.namedBy_of_read hread⟩

theorem endpoints_named_hostless :
    Address.NamedBy ⟨"", 80⟩ "[]:80"
      ∧ (∃ s, load {} none ⟨some "[]:80", none⟩ = .ok s ∧ s.exporter.endpoint.host = "")
      ∧ ∃ s, withAddress {} "[]:80" = .ok s ∧ s.exporter.endpoint.host = "" := by
  have hnamed := endpoints_named "[]:80" {} none ⟨some "[]:80", none⟩
  have hbrackets : ∃ t, "[]:80" = "[]:" ++ t ∧ ':' ∉ t.toList := ⟨"80", by decide, by decide⟩
  have hread : Address.read "[]:80" = .ok ⟨"", 80⟩ := by decide
  have hload : load {} none ⟨some "[]:80", none⟩ = .ok _ := rfl
  have hreplace : withAddress {} "[]:80" = .ok _ := rfl
  exact ⟨(hnamed {}).1 _ hread,
    ⟨_, hload, ((hnamed _).2.1 hload).2.hostless_iff.2 hbrackets⟩,
    ⟨_, hreplace, ((hnamed {}).2.2 _ hreplace).2.2.hostless_iff.2 hbrackets⟩⟩

end Settings

end GaugeConsole
