import Stencil.Text.Split

/-! Two ways to cut a text at its line feeds. `pieces` keeps everything that stands
between two of them. `lines` reads the text as a file: each line feed ends a line, a
carriage return right before it belongs to the line end, and nothing follows the last
one unless it is text. -/

namespace Stencil

def pieces : List Char → List (List Char) :=
  splitOn '\n'

def dropReturn (cs : List Char) : List Char :=
  if cs.getLast? = some '\r' then cs.dropLast else cs

/-- The lines made of the given pieces, all but the last of which ended in a line feed. -/
def linesOfPieces : List (List Char) → List (List Char)
  | [] => []
  | [last] => if last.isEmpty then [] else [last]
  | p :: q :: ps => dropReturn p :: linesOfPieces (q :: ps)

def charLines (cs : List Char) : List (List Char) :=
  linesOfPieces (pieces cs)

def lines (s : String) : List String :=
  (charLines s.toList).map String.ofList

end Stencil
