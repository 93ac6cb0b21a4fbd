import GaugeConsole.Text.Half
import GaugeConsole.Text.Numeral
import GaugeConsole.Text.Unprintable

/-!
# Quoted texts

In messages a text stands between single quotes, or between double quotes if it holds a single
quote and no double one. The quote in use, the backslash and whatever is not printed are written
with a backslash.
-/

namespace GaugeConsole

namespace Quoted

def mark (s : List Char) : Char := if s.contains '\'' && !s.contains '"' then '"' else '\''

def escape (quote c : Char) : List Char :=
  if c = quote ∨ c = '\\' then ['\\', c]
  else if c = '\n' then ['\\', 'n']
  else if c = '\r' then ['\\', 'r']
  else if c = '\t' then ['\\', 't']
  else
    match Half.toNat? c with
    | some n => '\\' :: 'u' :: hexDigits 4 n
    | none =>
      if isUnprintable c then
        if c.toNat < 0x100 then '\\' :: 'x' :: hexDigits 2 c.toNat
        else if c.toNat < 0x10000 then '\\' :: 'u' :: hexDigits 4 c.toNat
        else '\\' :: 'U' :: hexDigits 8 c.toNat
      else [c]

def encode (s : List Char) : List Char :=
  let quote := mark s
  quote :: s.flatMap (escape quote) ++ [quote]

end Quoted

def quoted (s : String) : String := String.ofList (Quoted.encode s.toList)

/-- Texts in quotes, separated by commas, between brackets. -/
def quotedList (texts : List String) : String := "[" ++ ", ".intercalate (texts.map quoted) ++ "]"

end GaugeConsole
