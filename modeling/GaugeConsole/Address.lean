import GaugeConsole.Text.Integer
import GaugeConsole.Text.Quoted

/-!
# Bind addresses

An address is a host and a port with a colon between them. The last colon of the text is the one
that counts, and a host with colons of its own stands in brackets.
-/

namespace GaugeConsole

structure Address where
  host : String
  port : Nat
deriving DecidableEq, Repr

/-- Why a text is no address. Each cause carries the text. -/
inductive AddressError where
  | incomplete (text : String)
  | unbracketed (text : String)
  | badPort (port text : String)
  | outOfRange (port : Int) (text : String)
deriving DecidableEq, Repr

namespace AddressError

def message : AddressError → String
  | incomplete text => "invalid address " ++ quoted text ++ ", expected host:port"
  | unbracketed text => "invalid address " ++ quoted text ++ ", IPv6 hosts must be bracketed"
  | badPort port text => "invalid port " ++ quoted port ++ " in address " ++ quoted text
  | outOfRange port text => "port " ++ intText port ++ " out of range in address " ++ quoted text

end AddressError

/-- What stands before and after the last occurrence of a character. -/
def splitLast (c : Char) : List Char → Option (List Char × List Char)
  | [] => none
  | d :: r =>
    match splitLast c r with
    | some (before, after) => some (d :: before, after)
    | none => if d = c then some ([], r) else none

namespace Address

def maxPort : Nat := 65535

/-- The host inside brackets, or the host as it is if it needs none. -/
def host? (s : List Char) : Option (List Char) :=
  if s.head? = some '[' ∧ s.getLast? = some ']' then some (s.drop 1).dropLast
  else if ':' ∈ s then none
  else some s

def read (text : String) : Except AddressError Address :=
  match splitLast ':' text.toList with
  | none => .error (.incomplete text)
  | some (before, after) =>
    if before = [] ∨ after = [] then .error (.incomplete text)
    else
      match host? before with
      | none => .error (.unbracketed text)
      | some host =>
        match Integer.read? after with
        | none => .error (.badPort (String.ofList after) text)
        | some port =>
          if 0 ≤ port ∧ port ≤ maxPort then .ok ⟨String.ofList host, port.toNat⟩
          else .error (.outOfRange port text)

end Address

end GaugeConsole
