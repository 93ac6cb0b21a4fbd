/-!
# Halves of characters

The code points 0xd800 to 0xdfff are no characters: two of them together write one character in
sixteen bits each. An escape can name such a half alone, and a text keeps it. It is held as the
private character 0x100000 further on. The private characters 0x10d800 to 0x10dfff are given up for
this: where a text has one of them for itself, it is taken for the half that it would hold.
-/

namespace GaugeConsole

namespace Half

def first : Nat := 0xd800

def last : Nat := 0xdfff

/-- How far the character that holds a half is from it. -/
def distance : Nat := 0x100000

def ofNat? (n : Nat) : Option Char :=
  if first ≤ n ∧ n ≤ last then some (Char.ofNat (n + distance)) else none

/-- The half that a character holds, if it holds one. -/
def toNat? (c : Char) : Option Nat :=
  if first + distance ≤ c.toNat ∧ c.toNat ≤ last + distance then some (c.toNat - distance)
  else none

end Half

def hasHalf (s : String) : Bool := s.toList.any fun c => (Half.toNat? c).isSome

end GaugeConsole
