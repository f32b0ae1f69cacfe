/-! Pieces of code, each given by the steps in which a writer writes it. Most elements are
built from text, line feeds, sequences and indented bodies. The remaining steps act on
the writer itself: they move its depth, or register elements for later. -/

namespace Stencil

inductive Element where
  /-- Text on the current line. -/
  | text (s : String)
  | lineFeed
  /-- Ends the current line if anything stands on it. -/
  | freshLine
  | seq (parts : List Element)
  /-- The parts one level deeper. -/
  | indented (parts : List Element)
  /-- The children one level deeper, or the placeholder if they write nothing; then a
  fresh line. -/
  | body (children : List Element) (placeholder : Element)
  | indent (levels : Nat)
  | dedent (levels : Nat)
  /-- Back to depth zero and the start of a line, without writing. -/
  | reset
  | register (element : Element)
  /-- Writes the registered elements. -/
  | flush

namespace Element

def empty : Element :=
  .seq []

/-- A whole line. -/
def line (s : String) : Element :=
  .seq [.text s, .lineFeed]

/-- An empty line, on a line of its own. -/
def blankLine : Element :=
  .seq [.freshLine, .lineFeed]

/-- Texts on consecutive lines, the last of which stays open. -/
def stack : List String → Element
  | [] => .empty
  | s :: rest => .seq (.text s :: rest.flatMap fun t => [.lineFeed, .text t])

/-- A header, the body it announces, and what follows. -/
def block (header : Element) (children : List Element) (placeholder footer : Element) : Element :=
  .seq [header, .body children placeholder, footer]

/-- How deep registrations nest. -/
def rank : Element → Nat
  | .seq parts => rankAll parts
  | .indented parts => rankAll parts
  | .body children placeholder => max (rankAll children) placeholder.rank
  | .register element => element.rank + 1
  | _ => 0
where
  rankAll : List Element → Nat
    | [] => 0
    | e :: es => max e.rank (rankAll es)

/-- How deep registrations nest in elements that are registered themselves. -/
def registeredRank : List Element → Nat
  | [] => 0
  | e :: es => max (e.rank + 1) (registeredRank es)

end Element

/-- Elements to be written one after the other, collected one at a time. -/
structure Sequence where
  items : List Element := []

namespace Sequence

def add (s : Sequence) (e : Element) : Sequence :=
  { s with items := s.items ++ [e] }

def size (s : Sequence) : Nat :=
  s.items.length

def isEmpty (s : Sequence) : Bool :=
  s.items.isEmpty

def element (s : Sequence) : Element :=
  .seq s.items

theorem items_foldl_add (s : Sequence) (es : List Element) :
    (es.foldl add s).items = s.items ++ es := by
  induction es generalizing s with
  | nil => simp
  | cons e es ih => simp [ih, add]

end Sequence

end Stencil
