import Stencil.Text.Lines
import Stencil.Text.Quoted

/-! A report of the lines in which two texts differ. -/

namespace Stencil

/-- A line of one text beside the same line of the other. -/
structure LinePair where
  number : Nat
  expected : Option String
  actual : Option String

def missingLine : String :=
  "<missing>"

def LinePair.expectedText (p : LinePair) : String :=
  p.expected.getD missingLine

def LinePair.actualText (p : LinePair) : String :=
  p.actual.getD missingLine

def LinePair.differs (p : LinePair) : Bool :=
  p.expectedText != p.actualText

def LinePair.report (p : LinePair) : String :=
  "Line " ++ p.number.repr ++ ":\n  expected: " ++ quoted p.expectedText
    ++ "\n  actual:   " ++ quoted p.actualText ++ "\n"

def pairLines : Nat → List String → List String → List LinePair
  | _, [], [] => []
  | n, e :: es, [] => ⟨n, some e, none⟩ :: pairLines (n + 1) es []
  | n, [], a :: as => ⟨n, none, some a⟩ :: pairLines (n + 1) [] as
  | n, e :: es, a :: as => ⟨n, some e, some a⟩ :: pairLines (n + 1) es as

def textPieces (s : String) : List String :=
  (pieces s.toList).map String.ofList

def differences (expected actual : String) : List LinePair :=
  (pairLines 1 (textPieces expected) (textPieces actual)).filter LinePair.differs

/-- No report for equal texts. -/
def mismatch? (expected actual : String) : Option String :=
  if expected = actual then none
  else some ("Content mismatch:\n"
    ++ String.join ((differences expected actual).map LinePair.report))

end Stencil
