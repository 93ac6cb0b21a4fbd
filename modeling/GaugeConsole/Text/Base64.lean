/-!
# Base 64

Bytes written with 64 digits, six bits each, so that four digits stand for three bytes. Equals
signs fill up the last four and end the text; all other characters say nothing.
-/

namespace GaugeConsole

namespace Base64

def digit? (c : Char) : Option Nat :=
  if 'A' ≤ c ∧ c ≤ 'Z' then some (c.toNat - 'A'.toNat)
  else if 'a' ≤ c ∧ c ≤ 'z' then some (c.toNat - 'a'.toNat + 26)
  else if '0' ≤ c ∧ c ≤ '9' then some (c.toNat - '0'.toNat + 52)
  else if c = '+' then some 62
  else if c = '/' then some 63
  else none

def bytes : List Nat → List UInt8
  | a :: b :: r =>
    UInt8.ofNat (4 * a + b / 16) :: match r with
      | [] => []
      | c :: r => UInt8.ofNat (b % 16 * 16 + c / 4) :: match r with
        | [] => []
        | d :: _ => [UInt8.ofNat (c % 4 * 64 + d)]
  | _ => []

/-- Reads on when `group` are the digits of the four that are not complete, and `fill` equals signs
have come after them. -/
def decodeFrom (group : List Nat) (fill : Nat) : List Char → Option (List UInt8)
  | [] => if group = [] then some [] else none
  | '=' :: r =>
    if group.length < 2 then decodeFrom group fill r
    else if 4 ≤ group.length + fill + 1 then some (bytes group)
    else decodeFrom group (fill + 1) r
  | c :: r =>
    match digit? c with
    | none => decodeFrom group fill r
    | some d =>
      if group.length = 3 then (decodeFrom [] 0 r).map (bytes (group ++ [d]) ++ ·)
      else decodeFrom (group ++ [d]) 0 r

/-- The bytes of a text, unless its last four digits are not filled up. -/
def decode? (s : List Char) : Option (List UInt8) := decodeFrom [] 0 s

end Base64

def ofUtf8? (bytes : List UInt8) : Option String := String.fromUTF8? ⟨bytes.toArray⟩

end GaugeConsole
