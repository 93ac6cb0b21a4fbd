import GaugeConsole.Document.Cursor
import GaugeConsole.Document.Malformed
import GaugeConsole.Text.Numeral

/-!
# Anchors, tags and directives

What a document says about its values besides the values themselves: names under which to come
back to them, tags that give their types, and directives before the document.
-/

namespace GaugeConsole.Document

/-- A tag as it is written: a handle that stands for the beginning of the name, unless the whole
name is written out, and the rest. -/
structure Tag where
  handle : Option String
  rest : String
deriving DecidableEq, Repr

inductive Directive where
  | version (major : Nat)
  | handle (handle stem : String)
  | other
deriving DecidableEq, Repr

namespace Cursor

/-- Letters, digits and the two marks that names are made of. -/
def isNameChar (c : Char) : Bool := c.isAlphanum || c = '-' || c = '_'

/-- The name behind the mark of an anchor or an alias. -/
def anchorName (c : Cursor) : Except Malformed (String × Cursor) :=
  let (name, c) := c.next.span isNameChar
  if name = [] || !(isGap c.peek || "?:,]\x7d%@\x60".toList.contains c.peek) then .error .name
  else .ok (String.ofList name, c)

/-- A tag's handle: an exclamation mark, or a name between two of them. -/
def tagHandle (c : Cursor) : Except Malformed (String × Cursor) :=
  if c.peek ≠ '!' then .error .tag
  else
    let (name, after) := c.next.span isNameChar
    if after.peek = '!' then .ok (String.ofList ('!' :: name ++ ['!']), after.next)
    else if c.peekAt 1 = ' ' then .ok ("!", c.next)
    else .error .tag

def isTagChar (c : Char) : Bool :=
  c.isAlphanum || "-;/?:@&=+$,_.!~*'()[]%".toList.contains c

/-- Replaces a percent sign and two hexadecimal digits by the character that they stand for. -/
def decodePercent : List Char → Option (List Char)
  | [] => some []
  | '%' :: a :: b :: r => do return Char.ofNat (← ofHexDigits? [a, b]) :: (← decodePercent r)
  | '%' :: _ => none
  | c :: r => (decodePercent r).map (c :: ·)

def tagRest (c : Cursor) : Except Malformed (String × Cursor) :=
  let (cs, c) := c.span isTagChar
  match decodePercent cs with
  | some (d :: ds) => .ok (String.ofList (d :: ds), c)
  | _ => .error .tag

/-- Whether a second exclamation mark follows before the tag ends. -/
def hasHandle : List Char → Bool
  | [] => false
  | ch :: r => !isPause ch && (ch = '!' || hasHandle r)

def tag (c : Cursor) : Except Malformed (Tag × Cursor) := do
  let ahead := c.peekAt 1
  let (tag, c) ←
    if ahead = '<' then
      let (rest, c) ← (c.skip 2).tagRest
      if c.peek ≠ '>' then throw .tag
      pure (⟨none, rest⟩, c.next)
    else if isGap ahead then pure (⟨none, "!"⟩, c.next)
    else
      let (handle, c) ← if hasHandle (c.rest.drop 1) then c.tagHandle else pure ("!", c.next)
      let (rest, c) ← c.tagRest
      pure (⟨some handle, rest⟩, c)
  if isPause c.peek then return (tag, c) else throw .tag

def digits (c : Cursor) : Except Malformed (Nat × Cursor) :=
  let (ds, c) := c.span isDigit
  if ds = [] then .error .directive else .ok (ofDigits ds, c)

def declaration (name : String) (c : Cursor) : Except Malformed (Directive × Cursor) :=
  let spaces := fun (c : Cursor) => c.skipWhile (· = ' ')
  if name = "YAML" then do
    let (major, c) ← (spaces c).digits
    if c.peek ≠ '.' then throw .directive
    let (_, c) ← c.next.digits
    if isPause c.peek then return (.version major, c) else throw .directive
  else if name = "TAG" then do
    let (handle, c) ← (spaces c).tagHandle
    if c.peek ≠ ' ' then throw .directive
    let (stem, c) ← (spaces c).tagRest
    if isPause c.peek then return (.handle handle stem, c) else throw .directive
  else .ok (.other, c.skipWhile (!isLineEnd ·))

def directive (c : Cursor) : Except Malformed (Directive × Cursor) := do
  let (name, c) := c.next.span isNameChar
  if name = [] || !isPause c.peek then throw .directive
  let (d, c) ← declaration (String.ofList name) c
  let c := c.skipComment
  if isLineEnd c.peek then return (d, c.lineBreak.2) else throw .directive

end Cursor

end GaugeConsole.Document
