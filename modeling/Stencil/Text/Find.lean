/-! Where one text stands inside another. Places are counted in UTF-8 bytes. -/

namespace Stencil

/-- A stretch of a document, from the byte `start` up to the byte `stop`. -/
structure Span where
  start : Nat
  stop : Nat
deriving DecidableEq, Repr

def Span.size (span : Span) : Nat :=
  span.stop - span.start

def byteSize : List Char → Nat
  | [] => 0
  | c :: cs => c.utf8Size + byteSize cs

/-- The first place at which `needle` begins. -/
def find? (needle : List Char) : List Char → Option Nat
  | [] => if needle.isEmpty then some 0 else none
  | c :: cs =>
    if needle.isPrefixOf (c :: cs) then some 0
    else (find? needle cs).map (· + c.utf8Size)

/-- What follows the first occurrence of `needle`, and where it begins. -/
def afterFirst? (needle : List Char) : List Char → Option (Nat × List Char)
  | [] => if needle.isEmpty then some (0, []) else none
  | c :: cs =>
    if needle.isPrefixOf (c :: cs) then some (byteSize needle, (c :: cs).drop needle.length)
    else (afterFirst? needle cs).map fun (start, rest) => (start + c.utf8Size, rest)

/-- The first place at which `needle` begins once a first occurrence has ended. -/
def findSecond? (needle cs : List Char) : Option Nat :=
  match afterFirst? needle cs with
  | some (start, rest) => (find? needle rest).map (· + start)
  | none => none

end Stencil
