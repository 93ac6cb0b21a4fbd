/-!
# Pieces of a text

A text cut at each occurrence of a character.
-/

namespace GaugeConsole

/-- The pieces between the occurrences of a character, of which there is at least one. -/
def piecesAt (mark : Char) : List Char → List (List Char)
  | [] => [[]]
  | c :: r =>
    if c = mark then [] :: piecesAt mark r
    else
      match piecesAt mark r with
      | [] => [[c]]
      | p :: ps => (c :: p) :: ps

end GaugeConsole
