import GaugeConsole.Document.Cursor
import GaugeConsole.Document.Malformed
import GaugeConsole.Text.Half
import GaugeConsole.Text.Numeral

/-!
# Scalars

The text of a scalar, in each of the ways in which it can be written: plain, between quotes, or as
a block of lines after a bar or an angle bracket. Lines of a text that is not kept line by line are
folded: a single break becomes a space, and of several the first one is dropped.

Loops are bounded by the number of characters left, since each pass takes up at least one.
-/

namespace GaugeConsole.Document

/-- What a line break and the empty lines after it come to. -/
def fold (first more : List Char) : List Char :=
  if first ≠ ['\n'] then first ++ more
  else if more = [] then [' ']
  else more

namespace Cursor

/-! ## Plain scalars -/

/-- The marks that end a plain scalar inside brackets or braces. -/
def isFlowMark (c : Char) : Bool := c = ',' || c = '[' || c = ']' || c = '\x7b' || c = '\x7d'

/-- The characters up to a gap, a colon that ends a key, or a mark of the collection around. -/
def word (flow : Bool) : List Char → List Char
  | [] => []
  | ch :: r =>
    let after := r.headD '\x00'
    if isGap ch then []
    else if ch = ':' && (isGap after || (flow && isFlowMark after)) then []
    else if flow && (ch = '?' || isFlowMark ch) then []
    else ch :: word flow r

/-- The further breaks between two lines of a plain scalar, unless a document ends there. -/
def plainBreaks : Nat → Cursor → Option (List Char) × Cursor
  | 0, c => (some [], c)
  | n + 1, c =>
    let c := c.skipWhile (· = ' ')
    if isBreak c.peek then
      let (first, c) := c.lineBreak
      if c.atDocumentMark then (none, c)
      else
        let (more, c) := plainBreaks n c
        (more.map (first ++ ·), c)
    else (some [], c)

/-- What stands between two words of a plain scalar, and whether a new line begins there. There is
nothing if the scalar ends. -/
def between (c : Cursor) : List Char × Bool × Cursor :=
  let (spaces, c) := c.span (· = ' ')
  if isBreak c.peek then
    let (first, c) := c.lineBreak
    if c.atDocumentMark then ([], true, c)
    else
      match plainBreaks (c.rest.length + 1) c with
      | (none, c) => ([], true, c)
      | (some more, c) => (fold first more, true, c)
  else (spaces, false, c)

/-- The words of a plain scalar and what stands between them, and whether the place after it is at
the beginning of a line. Outside brackets and braces the lines have to be indented to `margin`. -/
def plainWords (flow : Bool) (margin : Nat) : Nat → Bool → Cursor → List Char × Bool × Cursor
  | 0, fresh, c => ([], fresh, c)
  | n + 1, fresh, c =>
    let first := word flow c.rest
    if c.peek = '#' || first = [] then ([], fresh, c)
    else
      let (gap, fresh, c) := (skip first.length c).between
      if gap = [] || c.peek = '#' || (!flow && c.column < margin) then (first, fresh, c)
      else
        let (more, fresh, c) := plainWords flow margin n fresh c
        (if more = [] then first else first ++ gap ++ more, fresh, c)

def plain (c : Cursor) (flow : Bool) (margin : Nat) : List Char × Bool × Cursor :=
  plainWords flow margin (c.rest.length + 1) false c

def startsPlain (c : Cursor) (flow : Bool) : Bool :=
  let ch := c.peek
  !(isGap ch || isFlowMark ch || "-?:#&*!|>'\"%@\x60".toList.contains ch)
    || (!isGap (c.peekAt 1) && (ch = '-' || (!flow && (ch = '?' || ch = ':'))))

/-! ## Quoted scalars -/

def escaped? : Char → Option Char
  | '0' => some '\x00'
  | 'a' => some '\x07'
  | 'b' => some '\x08'
  | 't' => some '\t'
  | '\t' => some '\t'
  | 'n' => some '\n'
  | 'v' => some '\x0b'
  | 'f' => some '\x0c'
  | 'r' => some '\r'
  | 'e' => some '\x1b'
  | ' ' => some ' '
  | '"' => some '"'
  | '\\' => some '\\'
  | '/' => some '/'
  | 'N' => some '\x85'
  | '_' => some '\xa0'
  | 'L' => some '\u2028'
  | 'P' => some '\u2029'
  | _ => none

/-- How many hexadecimal digits follow a character after a backslash. -/
def escapeWidth? : Char → Option Nat
  | 'x' => some 2
  | 'u' => some 4
  | 'U' => some 8
  | _ => none

/-- The character of a code point, which may be half of one. -/
def ofCodePoint (n : Nat) : Except Malformed Char :=
  match Half.ofNat? n with
  | some c => .ok c
  | none => if n.isValidChar then .ok (Char.ofNat n) else .error (.codePoint n)

/-- The further breaks between two lines of a quoted scalar, in which no document may end. -/
def quotedBreaks : Nat → Cursor → Except Malformed (List Char × Cursor)
  | 0, c => .ok ([], c)
  | n + 1, c =>
    if c.atDocumentMark then .error .scalar
    else
      let c := c.skipWhile isSpaceOrTab
      if isBreak c.peek then do
        let (first, c) := c.lineBreak
        let (more, c) ← quotedBreaks n c
        return (first ++ more, c)
      else .ok ([], c)

/-- A line break inside quotes with all that is folded into it. -/
def quotedFold (c : Cursor) : Except Malformed (List Char × Cursor) := do
  let (first, c) := c.lineBreak
  let (more, c) ← quotedBreaks (c.rest.length + 1) c
  return (fold first more, c)

/-- What a backslash and the characters after it stand for. A break after a backslash and the
spaces that the next line begins with are left out. -/
def escape (c : Cursor) : Except Malformed (List Char × Cursor) :=
  let c := c.next
  let ch := c.peek
  match escaped? ch, escapeWidth? ch with
  | some e, _ => .ok ([e], c.next)
  | none, some width =>
    let ds := c.next.rest.take width
    match if ds.length = width then ofHexDigits? ds else none with
    | some n => (ofCodePoint n).map fun e => ([e], skip (width + 1) c)
    | none => .error .scalar
  | none, none =>
    if isBreak ch then quotedBreaks (c.rest.length + 1) c.lineBreak.2 else .error .scalar

/-- The text up to the closing quote. Between single quotes a quote is written twice, between
double quotes a backslash begins an escape. -/
def quotedRest (double : Bool) : Nat → Cursor → Except Malformed (List Char × Cursor)
  | 0, _ => .error .scalar
  | n + 1, c =>
    let go := fun (part : List Char) (c : Cursor) => do
      let (more, c) ← quotedRest double n c
      return (part ++ more, c)
    let ch := c.peek
    if isEnd ch then .error .scalar
    else if ch = (if double then '"' else '\'') then
      if !double && c.peekAt 1 = '\'' then go ['\''] (c.skip 2) else .ok ([], c.next)
    else if double && ch = '\\' then do
      let (part, c) ← c.escape
      go part c
    else if isSpaceOrTab ch || isBreak ch then do
      let (spaces, c) := c.span isSpaceOrTab
      if isBreak c.peek then
        let (part, c) ← c.quotedFold
        go part c
      else go spaces c
    else go [ch] c.next

def quoted (c : Cursor) (double : Bool) : Except Malformed (List Char × Cursor) :=
  quotedRest double (c.rest.length + 1) c.next

/-! ## Blocks -/

/-- What becomes of the line breaks at the end of a block: the last line keeps its break, or no
break is kept, or all are. -/
inductive Chomping where
  | clip
  | strip
  | keep
deriving DecidableEq, Repr

def chomping? : Char → Option Chomping
  | '-' => some .strip
  | '+' => some .keep
  | _ => none

def digit? (c : Char) : Option Nat := if isDigit c then some (ofDigits [c]) else none

/-- What a block's header says about its end and about its indentation, in either order. -/
def blockHeader (c : Cursor) : Chomping × Option Nat × Cursor :=
  match chomping? c.peek, digit? c.peek with
  | some k, _ =>
    match digit? c.next.peek with
    | some d => (k, some d, c.skip 2)
    | none => (k, none, c.next)
  | none, some d =>
    match chomping? c.next.peek with
    | some k => (k, some d, c.skip 2)
    | none => (.clip, some d, c.next)
  | none, none => (.clip, none, c)

/-- Skips spaces as long as they stand before a column. -/
def indentTo (c : Cursor) (column : Nat) : Cursor :=
  skip (min (column - c.column) (c.rest.takeWhile (· = ' ')).length) c

/-- The breaks of the empty lines ahead, and the place where the next line has its text, at the
latest at a column. -/
def emptyLines (column : Nat) : Nat → Cursor → List Char × Cursor
  | 0, c => ([], c)
  | n + 1, c =>
    let c := c.indentTo column
    if isBreak c.peek then
      let (first, c) := c.lineBreak
      let (more, c) := emptyLines column n c
      (first ++ more, c)
    else ([], c)

/-- The breaks of the empty lines ahead, and the furthest column that their spaces and those of the
next line reach. -/
def margin : Nat → Nat → Cursor → List Char × Nat × Cursor
  | 0, furthest, c => ([], furthest, c)
  | n + 1, furthest, c =>
    if c.peek = ' ' then margin n (max furthest c.next.column) c.next
    else if isBreak c.peek then
      let (first, c) := c.lineBreak
      let (more, furthest, c) := margin n furthest c
      (first ++ more, furthest, c)
    else ([], furthest, c)

/-- What a block comes to: its lines, the break of the last one, and those of the empty lines at
the end. -/
structure Block where
  text : List Char
  last : List Char
  trailing : List Char

/-- The lines of a block, which all begin at a column. In a folded block the break between two
lines is folded unless one of them begins with white space. -/
def blockLines (folded : Bool) (column : Nat) : Nat → List Char → Cursor → Block × Cursor
  | 0, breaks, c => (⟨[], [], breaks⟩, c)
  | n + 1, breaks, c =>
    if c.column = column ∧ ¬isEnd c.peek then
      let spaced := isSpaceOrTab c.peek
      let (line, c) := c.span (!isLineEnd ·)
      let (last, c) := c.lineBreak
      let (more, c) := emptyLines column (c.rest.length + 1) c
      if c.column = column ∧ ¬isEnd c.peek then
        let joint :=
          if folded && last = ['\n'] && !spaced && !isSpaceOrTab c.peek then
            if more = [] then [' '] else []
          else last
        let (b, c) := blockLines folded column n more c
        (⟨breaks ++ line ++ joint ++ b.text, b.last, b.trailing⟩, c)
      else (⟨breaks ++ line, last, more⟩, c)
    else (⟨[], [], breaks⟩, c)

/-- Reads a block, which is indented at least to `least`. -/
def block (c : Cursor) (folded : Bool) (least : Nat) : Except Malformed (List Char × Cursor) := do
  let (chomping, indentation, c) := c.next.blockHeader
  if indentation = some 0 || !isPause c.peek then throw .scalar
  let c := c.skipComment
  if !isLineEnd c.peek then throw .scalar
  let c := c.lineBreak.2
  let fuel := c.rest.length + 1
  let least := max least 1
  let (breaks, column, c) := match indentation with
    | some d =>
      let column := least + d - 1
      let (breaks, c) := emptyLines column fuel c
      (breaks, column, c)
    | none =>
      let (breaks, furthest, c) := margin fuel 0 c
      (breaks, max least furthest, c)
  let (b, c) := blockLines folded column fuel breaks c
  return (b.text ++ (if chomping = .strip then [] else b.last)
    ++ (if chomping = .keep then b.trailing else []), c)

end Cursor

end GaugeConsole.Document
