import Stencil.Text.Alphabetic
import Stencil.Text.Numeric
import Stencil.Text.Split

/-! Names that Python accepts: identifiers that are not keywords, and dotted sequences of
them. -/

namespace Stencil

def keywords : List String :=
  ["False", "None", "True", "and", "as", "assert", "async", "await", "break", "class",
   "continue", "def", "del", "elif", "else", "except", "finally", "for", "from", "global",
   "if", "import", "in", "is", "lambda", "nonlocal", "not", "or", "pass", "raise", "return",
   "try", "while", "with", "yield"]

def isKeyword (name : String) : Bool :=
  keywords.contains name

def startsName (c : Char) : Bool :=
  isAlphabetic c || c = '_'

def continuesName (c : Char) : Bool :=
  isAlphabetic c || isNumeric c || c = '_'

/-- What keeps a text from being a name. -/
inductive NameFlaw where
  | keyword
  | empty
  | badStart
  | badCharacter
  /-- A dotted name with nothing before, between or after its dots. -/
  | emptySegment
deriving DecidableEq, Repr

/-- Why a text is no identifier. -/
def identifierFlaw? : List Char → Option NameFlaw
  | [] => some .empty
  | c :: cs =>
    if !startsName c then some .badStart
    else if !cs.all continuesName then some .badCharacter
    else none

def nameFlaw? (name : String) : Option NameFlaw :=
  if isKeyword name then some .keyword else identifierFlaw? name.toList

/-- The parts between the dots. -/
def segments : List Char → List (List Char) :=
  splitOn '.'

/-- The first flaw of the segments of a dotted name, and the text that has it: an empty
segment is a flaw of the `whole` name. -/
def segmentsFlaw? (whole : String) : List (List Char) → Option (String × NameFlaw)
  | [] => none
  | s :: ss =>
    if s.isEmpty then some (whole, .emptySegment)
    else match nameFlaw? (String.ofList s) with
      | some flaw => some (String.ofList s, flaw)
      | none => segmentsFlaw? whole ss

/-- Why a text is no dotted name, and the part of it that is to blame. -/
def dottedFlaw? (name : String) : Option (String × NameFlaw) :=
  if name.isEmpty then some (name, .empty)
  else segmentsFlaw? name (segments name.toList)

end Stencil
