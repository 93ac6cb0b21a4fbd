import GaugeConsole.Command

/-!
# The grammar of commands

What a line can say and what it says then (`Command.Derives`). Each rule relates a text to its
meaning, and nothing here tells how a text is read: a text may be cut into parts in any way that
the rules allow.
-/

namespace GaugeConsole

namespace Grammar

def Blanks (s : List Char) : Prop := ∀ c ∈ s, c = ' ' ∨ c = '\t' ∨ c = '\r' ∨ c = '\n'

def Letters (s : List Char) : Prop := ∀ c ∈ s, ('A' ≤ c ∧ c ≤ 'Z') ∨ ('a' ≤ c ∧ c ≤ 'z')

def Digits (s : List Char) : Prop := ∀ c ∈ s, '0' ≤ c ∧ c ≤ '9'

inductive Sign : List Char → Bool → Prop
  | none : Sign [] false
  | plus : Sign ['+'] false
  | minus : Sign ['-'] true

/-- Digits before and after a point. The point needs digits on one side only, and without digits
after it, it may be left out. -/
inductive Mantissa : List Char → List Char → List Char → Prop
  | whole {d : List Char} : Digits d → d ≠ [] → Mantissa d d []
  | point {d f : List Char} : Digits d → d ≠ [] → Digits f → Mantissa (d ++ '.' :: f) d f
  | fraction {f : List Char} : Digits f → f ≠ [] → Mantissa ('.' :: f) [] f

/-- A power of ten, which is the first if it is left out. -/
inductive Power : List Char → Int → Prop
  | none : Power [] 0
  | mark {c : Char} {s d : List Char} {negative : Bool} : c = 'e' ∨ c = 'E' → Sign s negative →
      Digits d → d ≠ [] → Power (c :: s ++ d) (if negative then -ofDigits d else ofDigits d)

inductive Numeral : List Char → Literal → Prop
  | parts {s m p whole fraction : List Char} {negative : Bool} {exponent : Int} :
      Sign s negative → Mantissa m whole fraction → Power p exponent →
      Numeral (s ++ m ++ p) ⟨negative, whole, fraction, exponent⟩

/-- What stands between quotes, and the characters that it means. Only a quote and a backslash
are written with a backslash before them, and always so. -/
inductive Quoted : List Char → List Char → Prop
  | nil : Quoted [] []
  | quote {s t : List Char} : Quoted s t → Quoted ('\\' :: '"' :: s) ('"' :: t)
  | backslash {s t : List Char} : Quoted s t → Quoted ('\\' :: '\\' :: s) ('\\' :: t)
  | plain {c : Char} {s t : List Char} : c ≠ '"' → c ≠ '\\' → Quoted s t →
      Quoted (c :: s) (c :: t)

inductive Pair : List Char → String × String → Prop
  | parts {k a b s t : List Char} : Letters k → k ≠ [] → Blanks a → Blanks b → Quoted s t →
      Pair (k ++ a ++ '=' :: b ++ '"' :: s ++ ['"']) (String.ofList k, String.ofList t)

inductive Pairs : List Char → List (String × String) → Prop
  | one {s : List Char} {p : String × String} : Pair s p → Pairs s [p]
  | more {s r : List Char} {p : String × String} {ps : List (String × String)} :
      Pair s p → Pairs r ps → Pairs (s ++ ',' :: r) (p :: ps)

/-- Tags in brackets, put into a map one after the other. -/
inductive Bracketed : List Char → Tags → Prop
  | missing : Bracketed [] {}
  | empty : Bracketed ['[', ']'] {}
  | pairs {s : List Char} {ps : List (String × String)} :
      Pairs s ps → Bracketed ('[' :: s ++ [']']) (.ofList ps)

inductive Named : List Char → Metric → Prop
  | parts {n s : List Char} {tags : Tags} : Letters n → n ≠ [] → Bracketed s tags →
      Named (n ++ s) ⟨String.ofList n, tags⟩

end Grammar

open Grammar in
/-- A text is a command's, with all of its characters. -/
inductive Command.Derives : List Char → Command → Prop
  | set {g s a b t : List Char} {m : Metric} {l : Literal} : Blanks g → g ≠ [] → Named s m →
      Blanks a → Blanks b → Numeral t l →
      Derives ("set".toList ++ g ++ s ++ a ++ '=' :: b ++ t) (.set m l.value)
  | del {g s : List Char} {m : Metric} : Blanks g → g ≠ [] → Named s m →
      Derives ("del".toList ++ g ++ s) (.del m)
  | get {g s : List Char} {m : Metric} : Blanks g → g ≠ [] → Named s m →
      Derives ("get".toList ++ g ++ s) (.get m)
  | exit : Derives "exit".toList .exit
  | quit : Derives "quit".toList .exit
  | help : Derives "help".toList .help

end GaugeConsole
