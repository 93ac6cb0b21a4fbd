/-!
# A place in a text

Documents are read character by character. A cursor knows the characters left and where it stands;
beyond the end it sees the null character, which no document holds.
-/

namespace GaugeConsole.Document

def isBreak (c : Char) : Bool := c = '\n' || c = '\x85' || c = '\u2028' || c = '\u2029'

/-- The null character stands for the end of the text. -/
def isEnd (c : Char) : Bool := c = '\x00'

def isLineEnd (c : Char) : Bool := isEnd c || isBreak c

def isSpaceOrTab (c : Char) : Bool := c = ' ' || c = '\t'

/-- What may follow a word: white space or an end. -/
def isGap (c : Char) : Bool := isSpaceOrTab c || isLineEnd c

/-- Where a directive or a tag ends. -/
def isPause (c : Char) : Bool := c = ' ' || isLineEnd c

structure Cursor where
  rest : List Char
  index : Nat := 0
  line : Nat := 0
  column : Nat := 0

namespace Cursor

def peekAt (c : Cursor) (n : Nat) : Char := (c.rest[n]?).getD '\x00'

def peek (c : Cursor) : Char := c.rest.headD '\x00'

/-- Goes on by one character. A byte order mark takes up no column. -/
def next (c : Cursor) : Cursor :=
  match c.rest with
  | [] => c
  | ch :: r =>
    if isBreak ch then ⟨r, c.index + 1, c.line + 1, 0⟩
    else ⟨r, c.index + 1, c.line, c.column + (if ch = '\ufeff' then 0 else 1)⟩

def skip : Nat → Cursor → Cursor
  | 0, c => c
  | n + 1, c => skip n c.next

/-- The characters of a class ahead, and the place after them. -/
def span (c : Cursor) (p : Char → Bool) : List Char × Cursor :=
  let cs := c.rest.takeWhile p
  (cs, skip cs.length c)

def skipWhile (c : Cursor) (p : Char → Bool) : Cursor := (c.span p).2

/-- A line break that may be ahead. The next line character counts as a line feed. -/
def lineBreak (c : Cursor) : List Char × Cursor :=
  if c.peek = '\x85' then (['\n'], c.next)
  else if isBreak c.peek then ([c.peek], c.next)
  else ([], c)

/-- Whether a mark of three equal characters and a gap are ahead. -/
def atMark (c : Cursor) (mark : Char) : Bool :=
  c.peek = mark && c.peekAt 1 = mark && c.peekAt 2 = mark && isGap (c.peekAt 3)

/-- Whether the line ahead begins or ends a document. -/
def atDocumentMark (c : Cursor) : Bool := c.atMark '-' || c.atMark '.'

def skipComment (c : Cursor) : Cursor :=
  let c := c.skipWhile (· = ' ')
  if c.peek = '#' then c.skipWhile (!isLineEnd ·) else c

end Cursor

end GaugeConsole.Document
