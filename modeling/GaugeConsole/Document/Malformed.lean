/-!
# Texts that are no documents

What can be wrong with the text of a document. The causes say which rule was broken and not where.
-/

namespace GaugeConsole.Document

inductive Malformed where
  | character
  | key
  | nesting
  | scalar
  | directive
  | name
  | tag
  | content
  | reference
  | secondDocument
  /-- An escape names a code point beyond the last one. -/
  | codePoint (n : Nat)
deriving DecidableEq, Repr

namespace Malformed

def message : Malformed → String
  | character => "a character stands where it cannot"
  | key => "a key lacks its colon"
  | nesting => "an entry is not allowed here"
  | scalar => "a scalar is not well formed"
  | directive => "a directive is not well formed"
  | name => "an anchor or alias has no proper name"
  | tag => "a tag is unknown or does not suit its content"
  | content => "a collection or its content is not well formed"
  | reference => "an alias has no anchor, or an anchor comes twice"
  | secondDocument => "there is more than one document"
  | codePoint n =>
    if n < 0x80000000 then "chr() arg not in range(0x110000)"
    else "Python int too large to convert to C int"

end Malformed

end GaugeConsole.Document
