import GaugeConsole.Address
import GaugeConsole.Proofs.Integers
import Mathlib.Data.Nat.Digits.Defs

/-!
# Addresses as they are written

An address is written with its host in brackets, a colon and a port, or without brackets if the host
has no colon and does not look as if it were in brackets itself. A port may be written in any way in
which a whole number is (`Address.Written`). Such a text is read as the address, and any other text
is refused (`Address.read_written`).
-/

namespace GaugeConsole

section SplitLast

variable {c : Char}

theorem splitLast_eq_none_iff : ∀ {s : List Char}, splitLast c s = none ↔ c ∉ s
  | [] => by simp [splitLast]
  | d :: s => by
    have ih : splitLast c s = none ↔ c ∉ s := splitLast_eq_none_iff
    rw [splitLast]
    rcases h : splitLast c s with _ | ⟨before, after⟩ <;> rw [h] at ih
    · simp [ih.1 rfl, eq_comm]
    · have hc : c ∈ s := by simpa using ih
      simp [hc]

theorem splitLast_append {b : List Char} (hb : c ∉ b) :
    ∀ a : List Char, splitLast c (a ++ c :: b) = some (a, b)
  | [] => by simp [splitLast, splitLast_eq_none_iff.2 hb]
  | d :: a => by simp [splitLast, splitLast_append hb a]

theorem splitLast_sound :
    ∀ {s a b : List Char}, splitLast c s = some (a, b) → s = a ++ c :: b ∧ c ∉ b
  | d :: s, a, b, h => by
    rw [splitLast] at h
    rcases hs : splitLast c s with _ | ⟨before, after⟩ <;> rw [hs] at h
    · dsimp only at h
      split_ifs at h with hd
      cases h
      exact ⟨by rw [hd, List.nil_append], splitLast_eq_none_iff.1 hs⟩
    · cases h
      obtain ⟨rfl, hafter⟩ := splitLast_sound hs
      exact ⟨rfl, hafter⟩

end SplitLast

namespace Address

/-- Begins and ends like a host in brackets. -/
def InBrackets (h : String) : Prop := h.toList.head? = some '[' ∧ h.toList.getLast? = some ']'

/-- A text in which a port is written. -/
structure PortText (t : String) (port : ℕ) : Prop where
  colonless : ':' ∉ t.toList
  written : Integer.Written t.toList port
  bounded : port ≤ maxPort

/-- A text in which an address is written. -/
inductive Written : Address → String → Prop
  | bare {h t : String} {port : ℕ} (hne : h ≠ "") (hcolon : ':' ∉ h.toList)
      (hbrackets : ¬InBrackets h) (hport : PortText t port) : Written ⟨h, port⟩ (h ++ ":" ++ t)
  | bracketed {h t : String} {port : ℕ} (hport : PortText t port) :
      Written ⟨h, port⟩ ("[" ++ h ++ "]:" ++ t)

theorem Written.port_le {a : Address} {s : String} (h : a.Written s) : a.port ≤ maxPort := by
  cases h with
  | bare _ _ _ hport => exact hport.bounded
  | bracketed hport => exact hport.bounded

theorem PortText.ne_nil {t : String} {port : ℕ} (h : PortText t port) : t.toList ≠ [] := by
  intro hnil
  have hread := Integer.read?_eq_some_iff.2 h.written
  rw [hnil] at hread
  cases hread

theorem portText_intText {port : ℕ} (h : port ≤ maxPort) : PortText (intText port) port := by
  have htext : (intText port).toList = natDigits port := by
    rw [intText, Int.natAbs_natCast, if_neg (Int.natCast_nonneg port).not_gt, String.toList_ofList]
  have hlength : (natDigits port).length ≤ 5 :=
    Nat.toDigits_length 10 port 5 (by decide) (h.trans_lt (by decide))
  refine ⟨?_, ?_, h⟩
  · rw [htext]
    exact fun hc => absurd (Grammar.digits_iff.1 digits_natDigits _ hc) (by decide)
  · rw [htext]
    exact Integer.written_natDigits (hlength.trans (by decide))

theorem brackets_iff {s : List Char} :
    s.head? = some '[' ∧ s.getLast? = some ']' ↔ ∃ h, s = '[' :: (h ++ [']']) := by
  constructor
  · rintro ⟨hhead, hlast⟩
    obtain ⟨b, rfl⟩ := List.getLast?_eq_some_iff.1 hlast
    rcases b with _ | ⟨c, h⟩
    · cases hhead
    · cases hhead
      exact ⟨h, rfl⟩
  · rintro ⟨h, rfl⟩
    exact ⟨rfl, List.getLast?_concat (l := '[' :: h)⟩

/-- Brackets are taken away from around a host, and a host with a colon needs them. -/
theorem host?_eq_some_iff {s h : List Char} :
    host? s = some h ↔ s = '[' :: (h ++ [']'])
      ∨ s = h ∧ ':' ∉ h ∧ ¬(h.head? = some '[' ∧ h.getLast? = some ']') := by
  rw [host?]
  split_ifs with hbrackets hcolon
  · obtain ⟨m, rfl⟩ := brackets_iff.1 hbrackets
    have hm : (('[' :: (m ++ [']'])).drop 1).dropLast = m := by simp
    rw [hm, Option.some.injEq]
    constructor
    · rintro rfl
      exact .inl rfl
    · rintro (hs | ⟨rfl, -, hno⟩)
      · simpa using hs
      · exact absurd hbrackets hno
  · rw [brackets_iff] at hbrackets
    simp only [false_iff, not_or]
    refine ⟨fun hs => hbrackets ⟨h, hs⟩, ?_⟩
    rintro ⟨rfl, hno, -⟩
    exact hno hcolon
  · rw [Option.some.injEq]
    constructor
    · rintro rfl
      exact .inr ⟨rfl, hcolon, hbrackets⟩
    · rintro (hs | ⟨hs, -⟩)
      · exact absurd (brackets_iff.2 ⟨h, hs⟩) hbrackets
      · exact hs

/-- What an accepted text is made of, up to what its host is written as. -/
theorem read_eq_ok_iff_parts {s : String} {a : Address} :
    read s = .ok a ↔ ∃ before t, s.toList = before ++ ':' :: t.toList ∧ before ≠ []
      ∧ host? before = some a.host.toList ∧ PortText t a.port := by
  constructor
  · intro h
    unfold read at h
    split at h
    · cases h
    rename_i before after hsplit
    obtain ⟨hs, hcolon⟩ := splitLast_sound hsplit
    split_ifs at h with hempty
    split at h
    · cases h
    rename_i host hhost
    split at h
    · cases h
    rename_i port hvalue
    split_ifs at h with hport
    cases h
    obtain ⟨n, rfl⟩ := Int.eq_ofNat_of_zero_le hport.1
    refine ⟨before, String.ofList after, ?_, fun hb => hempty (.inl hb), ?_, ?_⟩
    · rw [String.toList_ofList, hs]
    · rw [String.toList_ofList, hhost]
    · constructor
      · rwa [String.toList_ofList]
      · rw [String.toList_ofList]
        exact Integer.read?_eq_some_iff.1 hvalue
      · exact Int.ofNat_le.1 hport.2
  · rintro ⟨before, t, hs, hne, hhost, hport⟩
    rw [read, hs, splitLast_append hport.colonless]
    dsimp only
    rw [if_neg (not_or.2 ⟨hne, hport.ne_nil⟩), hhost]
    dsimp only
    rw [Integer.read?_eq_some_iff.2 hport.written]
    dsimp only
    rw [if_pos ⟨Int.natCast_nonneg _, Int.ofNat_le.2 hport.bounded⟩, String.ofList_toList,
      Int.toNat_natCast]

theorem read_eq_ok_iff {s : String} {a : Address} : read s = .ok a ↔ a.Written s := by
  rw [read_eq_ok_iff_parts]
  constructor
  · rintro ⟨before, t, hs, hne, hhost, hport⟩
    rcases host?_eq_some_iff.1 hhost with rfl | ⟨rfl, hcolon, hbrackets⟩
    · have hs : s = "[" ++ a.host ++ "]:" ++ t := String.toList_injective (by simp [hs])
      rw [hs]
      exact .bracketed hport
    · have hs : s = a.host ++ ":" ++ t := String.toList_injective (by simp [hs])
      rw [hs]
      exact .bare (fun hnil => hne (by rw [hnil]; rfl)) hcolon hbrackets hport
  · rintro (⟨hne, hcolon, hbrackets, hport⟩ | ⟨hport⟩)
    · refine ⟨_, _, by simp, ?_, host?_eq_some_iff.2 (.inr ⟨rfl, hcolon, hbrackets⟩), hport⟩
      exact fun hnil => hne (String.toList_injective hnil)
    · exact ⟨_, _, by simp, List.cons_ne_nil _ _, host?_eq_some_iff.2 (.inl rfl), hport⟩

/-- An address reads back from either of its forms, a text is accepted just if an address is written
in it, and the form in brackets then stands for that address as well. -/
theorem read_written :
    (∀ (h : String) (port : ℕ), h ≠ "" → port ≤ maxPort →
      (':' ∉ h.toList → ¬InBrackets h → read (h ++ ":" ++ intText port) = .ok ⟨h, port⟩)
        ∧ read ("[" ++ h ++ "]:" ++ intText port) = .ok ⟨h, port⟩)
    ∧ ∀ s : String,
      (∀ a, read s = .ok a ↔ Written a s)
        ∧ (∀ a, read s = .ok a →
            a.port ≤ maxPort ∧ read ("[" ++ a.host ++ "]:" ++ intText a.port) = .ok a)
        ∧ ((∃ e, read s = .error e) ↔ ∀ a, ¬Written a s) := by
  have hbracketed : ∀ a : Address, a.port ≤ maxPort →
      read ("[" ++ a.host ++ "]:" ++ intText a.port) = .ok a := fun a ha =>
    read_eq_ok_iff.2 (.bracketed (portText_intText ha))
  refine ⟨fun h port hne hport => ⟨fun hcolon hbrackets => ?_, hbracketed ⟨h, port⟩ hport⟩,
    fun s => ⟨fun a => read_eq_ok_iff, fun a ha => ?_, ?_⟩⟩
  · exact read_eq_ok_iff.2 (.bare hne hcolon hbrackets (portText_intText hport))
  · have hport := (read_eq_ok_iff.1 ha).port_le
    exact ⟨hport, hbracketed a hport⟩
  · simp only [← read_eq_ok_iff]
    cases read s <;> simp

theorem read_written_colons :
    read ("[x" ++ ":" ++ intText (65535 : ℕ)) = .ok ⟨"[x", 65535⟩
      ∧ Written ⟨"a:b]:9", 80⟩ "[a:b]:9]: +0_80"
      ∧ read ("[" ++ "a:b]:9" ++ "]:" ++ intText (80 : ℕ)) = .ok ⟨"a:b]:9", 80⟩
      ∧ ∀ a, ¬Written a "::1:80" := by
  obtain ⟨hforms, hread⟩ := read_written
  have hopen : ¬InBrackets "[x" := by
    unfold InBrackets
    decide
  have haccepted : read "[a:b]:9]: +0_80" = .ok ⟨"a:b]:9", 80⟩ := by decide
  have hrefused : read "::1:80" = .error (.unbracketed "::1:80") := by decide
  exact ⟨(hforms "[x" 65535 (by decide) (by decide)).1 (by decide) hopen,
    ((hread _).1 _).1 haccepted, ((hread _).2.1 _ haccepted).2, (hread _).2.2.1 ⟨_, hrefused⟩⟩

end Address

end GaugeConsole
