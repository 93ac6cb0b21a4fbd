import GaugeConsole.Document.Label
import GaugeConsole.Document.Scalar

/-!
# Tokens

A document as a row of tokens. Indentation shows as tokens that open and close block collections.
Whether a scalar is a key is known only when a colon follows it, so the tokens that say so are put
in before tokens that have been read already.
-/

namespace GaugeConsole.Document

inductive Token where
  | directive (d : Directive)
  | documentStart
  | documentEnd
  | blockList
  | blockMapping
  | blockEnd
  | openBracket
  | closeBracket
  | openBrace
  | closeBrace
  | comma
  | entry
  | key
  | value
  | anchor (name : String)
  | reference (name : String)
  | tag (t : Tag)
  | scalar (text : String) (plain : Bool)
deriving DecidableEq, Repr

/-- Something that has been read and turns out to be a key if a colon follows on its line. -/
structure KeyStart where
  /-- How many tokens come before it. -/
  position : Nat
  /-- At the margin of a mapping nothing but a key may stand. -/
  required : Bool
  place : Cursor

namespace KeyStart

/-- A key has to be on one line with its colon and not too far away from it. -/
def reaches (k : KeyStart) (c : Cursor) : Bool :=
  k.place.line = c.line && c.index ≤ k.place.index + 1024

end KeyStart

/-- How far the tokens of a text have been read. A margin is one more than the column of the block
collection that it belongs to, and zero outside all of them. -/
structure Reading where
  cursor : Cursor
  /-- The tokens so far, the last one first. -/
  tokens : List Token := []
  margin : Nat := 0
  /-- The margins of the collections around. -/
  margins : List Nat := []
  keyAllowed : Bool := true
  key : Option KeyStart := none
  /-- What may be a key in each of the collections around that stand in brackets or braces. -/
  outer : List (Option KeyStart) := []

namespace Reading

/-- Whether the place is inside brackets or braces. -/
def flow (r : Reading) : Bool := !r.outer.isEmpty

def emit (r : Reading) (t : Token) : Reading := { r with tokens := t :: r.tokens }

/-- Puts a token in before all but the first `position` tokens. -/
def put (r : Reading) (position : Nat) (t : Token) : Reading :=
  { r with tokens := r.tokens.insertIdx (r.tokens.length - position) t }

def goTo (r : Reading) (c : Cursor) (keyAllowed : Bool) : Reading :=
  { r with cursor := c, keyAllowed := keyAllowed }

/-- Gives up what may have been a key. -/
def dropKey (r : Reading) : Except Malformed Reading :=
  if r.key.any (·.required) then .error .key else .ok { r with key := none }

/-- Keeps in mind that a key may begin here. -/
def saveKey (r : Reading) : Except Malformed Reading :=
  if r.keyAllowed then do
    let r ← r.dropKey
    let required := !r.flow && r.margin = r.cursor.column + 1
    return { r with key := some ⟨r.tokens.length, required, r.cursor⟩ }
  else .ok r

/-- Gives up the keys that lie too far back. -/
def expireKeys (r : Reading) : Except Malformed Reading :=
  let kept := fun (k : Option KeyStart) => k.filter (·.reaches r.cursor)
  let lost := fun (k : Option KeyStart) => k.any fun k => k.required && !k.reaches r.cursor
  if (r.key :: r.outer).any lost then .error .key
  else .ok { r with key := kept r.key, outer := r.outer.map kept }

/-- Leaves margins beyond a limit: the margin that remains, those around it, and how many block
collections end. -/
def leave (limit : Nat) : Nat → List Nat → Nat × List Nat × Nat
  | margin, [] => (min margin limit, [], if limit < margin then 1 else 0)
  | margin, m :: ms =>
    if limit < margin then
      let (margin, margins, n) := leave limit m ms
      (margin, margins, n + 1)
    else (margin, m :: ms, 0)

/-- Ends the block collections whose margin is beyond a limit. -/
def unwind (r : Reading) (limit : Nat) : Reading :=
  if r.flow then r
  else
    let (margin, margins, n) := leave limit r.margin r.margins
    let tokens := List.replicate n .blockEnd ++ r.tokens
    { r with margin := margin, margins := margins, tokens := tokens }

/-- Begins a block collection at a column, before all but the first `position` tokens, if the
column lies beyond the margin. -/
def indent (r : Reading) (column position : Nat) (t : Token) : Reading :=
  if r.margin < column + 1 then
    { r.put position t with margin := column + 1, margins := r.margin :: r.margins }
  else r

/-- Skips white space and comments. On a new line a key may begin. -/
def skipBlank : Nat → Reading → Reading
  | 0, r => r
  | n + 1, r =>
    let c := r.cursor.skipComment
    if isBreak c.peek then skipBlank n (r.goTo c.lineBreak.2 (r.keyAllowed || !r.flow))
    else { r with cursor := c }

/-- Leaves all block collections, for a line that belongs to no document. -/
def leaveDocument (r : Reading) : Except Malformed Reading := (r.unwind 0).dropKey

def documentMark (r : Reading) (t : Token) : Except Malformed Reading := do
  let r ← r.leaveDocument
  return (r.goTo (r.cursor.skip 3) false).emit t

def directive (r : Reading) : Except Malformed Reading := do
  let r ← r.leaveDocument
  let (d, c) ← r.cursor.directive
  return (r.goTo c false).emit (.directive d)

def openFlow (r : Reading) (t : Token) : Except Malformed Reading := do
  let r ← r.saveKey
  return ({ r with key := none, outer := r.key :: r.outer }.goTo r.cursor.next true).emit t

def closeFlow (r : Reading) (t : Token) : Except Malformed Reading := do
  let r ← r.dropKey
  match r.outer with
  | [] => throw .content
  | key :: outer => return ({ r with key := key, outer := outer }.goTo r.cursor.next false).emit t

def comma (r : Reading) : Except Malformed Reading := do
  let r ← r.dropKey
  return (r.goTo r.cursor.next true).emit .comma

/-- Begins a block collection at the place itself, which has to be where a key is allowed. -/
def indentHere (r : Reading) (t : Token) : Except Malformed Reading :=
  if r.flow then .ok r
  else if r.keyAllowed then .ok (r.indent r.cursor.column r.tokens.length t)
  else .error .nesting

def entry (r : Reading) : Except Malformed Reading := do
  let r ← (← r.indentHere .blockList).dropKey
  return (r.goTo r.cursor.next true).emit .entry

/-- A question mark begins a key. -/
def explicitKey (r : Reading) : Except Malformed Reading := do
  let r ← (← r.indentHere .blockMapping).dropKey
  return (r.goTo r.cursor.next (!r.flow)).emit .key

/-- A colon turns what may have been a key into one, or stands for itself. -/
def colon (r : Reading) : Except Malformed Reading :=
  match r.key with
  | some k =>
    let r := { r with key := none }.put k.position .key
    let r := if r.flow then r else r.indent k.place.column k.position .blockMapping
    .ok ((r.goTo r.cursor.next false).emit .value)
  | none => do
    let r ← r.indentHere .blockMapping
    return (r.goTo r.cursor.next (!r.flow)).emit .value

/-- Takes up an anchor, an alias, a tag or a scalar, any of which may begin a key. -/
def item {α : Type} (r : Reading) (read : Cursor → Except Malformed (α × Cursor))
    (token : α → Token) : Except Malformed Reading := do
  let r ← r.saveKey
  let (a, c) ← read r.cursor
  return (r.goTo c false).emit (token a)

/-- Takes up a plain scalar. A key may begin after it if it ends with its line. -/
def plain (r : Reading) : Except Malformed Reading := do
  let r ← r.saveKey
  let (text, fresh, c) := r.cursor.plain r.flow r.margin
  return (r.goTo c fresh).emit (.scalar (String.ofList text) true)

def block (r : Reading) (folded : Bool) : Except Malformed Reading := do
  let r ← r.dropKey
  let (text, c) ← r.cursor.block folded r.margin
  return (r.goTo c true).emit (.scalar (String.ofList text) false)

def token (r : Reading) : Except Malformed Reading :=
  let c := r.cursor
  let ch := c.peek
  let separate := r.flow || isGap (c.peekAt 1)
  if c.column = 0 ∧ ch = '%' then r.directive
  else if c.column = 0 ∧ c.atMark '-' then r.documentMark .documentStart
  else if c.column = 0 ∧ c.atMark '.' then r.documentMark .documentEnd
  else if ch = '[' then r.openFlow .openBracket
  else if ch = '\x7b' then r.openFlow .openBrace
  else if ch = ']' then r.closeFlow .closeBracket
  else if ch = '\x7d' then r.closeFlow .closeBrace
  else if ch = ',' then r.comma
  else if ch = '-' ∧ isGap (c.peekAt 1) then r.entry
  else if ch = '?' ∧ separate then r.explicitKey
  else if ch = ':' ∧ separate then r.colon
  else if ch = '*' then r.item Cursor.anchorName .reference
  else if ch = '&' then r.item Cursor.anchorName .anchor
  else if ch = '!' then r.item Cursor.tag .tag
  else if (ch = '|' ∨ ch = '>') ∧ ¬r.flow then r.block (ch = '>')
  else if ch = '\'' ∨ ch = '"' then
    r.item (·.quoted (ch = '"')) fun text => .scalar (String.ofList text) false
  else if c.startsPlain r.flow then r.plain
  else .error .character

def toEnd : Nat → Reading → Except Malformed (List Token)
  | 0, _ => .error .character
  | n + 1, r => do
    let r ← (skipBlank (r.cursor.rest.length + 1) r).expireKeys
    let r := r.unwind (r.cursor.column + 1)
    if isEnd r.cursor.peek then return (← r.leaveDocument).tokens.reverse
    else toEnd n (← r.token)

end Reading

namespace Token

/-- Takes a carriage return, alone or before a line feed, for a line feed. -/
def unifyBreaks : List Char → List Char
  | '\r' :: '\n' :: r => '\n' :: unifyBreaks r
  | '\r' :: r => '\n' :: unifyBreaks r
  | c :: r => c :: unifyBreaks r
  | [] => []

def isAllowed (c : Char) : Bool :=
  let n := c.toNat
  c = '\t' || c = '\n' || (0x20 ≤ n && n ≤ 0x7e) || n = 0x85
    || (0xa0 ≤ n && n ≤ 0xfffd) || 0x10000 ≤ n

/-- The tokens of a text. A byte order mark at the beginning is skipped. -/
def ofText (text : String) : Except Malformed (List Token) :=
  let cs := unifyBreaks text.toList
  if cs.all isAllowed then
    let c : Cursor := { rest := cs }
    let c := if c.peek = '\ufeff' then c.next else c
    Reading.toEnd (cs.length + 1) { cursor := c }
  else .error .character

end Token

end GaugeConsole.Document
