/-! Cutting a text at every occurrence of a character. -/

namespace Stencil

/-- The parts between the separators, one more than there are separators. -/
def splitOn (separator : Char) : List Char → List (List Char)
  | [] => [[]]
  | c :: cs =>
    if c = separator then [] :: splitOn separator cs
    else match splitOn separator cs with
      | p :: ps => (c :: p) :: ps
      | [] => [[c]]

end Stencil
