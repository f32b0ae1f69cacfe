import Stencil.Text.CodePoints

/-! White space in the sense of the Unicode property White_Space, and texts without it
at their ends. -/

namespace Stencil

def blankRanges : CodePoints :=
  ⟨[(0x9, 0xd), (0x20, 0x20), (0x85, 0x85), (0xa0, 0xa0), (0x1680, 0x1680), (0x2000, 0x200a),
   (0x2028, 0x2029), (0x202f, 0x202f), (0x205f, 0x205f), (0x3000, 0x3000)]⟩

def isBlank (c : Char) : Bool :=
  blankRanges.has c

def trimLeft (cs : List Char) : List Char :=
  cs.dropWhile isBlank

def trimRight (cs : List Char) : List Char :=
  (cs.reverse.dropWhile isBlank).reverse

/-- Drops the white space at both ends. -/
def trimBoth (cs : List Char) : List Char :=
  trimRight (trimLeft cs)

def trim (s : String) : String :=
  String.ofList (trimBoth s.toList)

/-- A text of white space only; the empty text is one. -/
def isBlankText (s : String) : Bool :=
  s.toList.all isBlank

end Stencil
