import Stencil.Catalog
import Stencil.Element

/-! Parameter lists, of definitions and of calls. A keyword given again keeps its place
and takes the new value. -/

namespace Stencil

structure Parameters where
  positional : List String := []
  keyword : Catalog String := {}

namespace Parameters

def arg (p : Parameters) (name : String) : Parameters :=
  { p with positional := p.positional ++ [name] }

def args (p : Parameters) (names : List String) : Parameters :=
  { p with positional := p.positional ++ names }

def kwarg (p : Parameters) (name value : String) : Parameters :=
  { p with keyword := p.keyword.put name value }

def kwargs (p : Parameters) (pairs : List (String × String)) : Parameters :=
  pairs.foldl (fun p (name, value) => p.kwarg name value) p

def isEmpty (p : Parameters) : Bool :=
  p.positional.isEmpty && p.keyword.isEmpty

def size (p : Parameters) : Nat :=
  p.positional.length + p.keyword.size

def items (p : Parameters) : List String :=
  p.positional ++ p.keyword.entries.map fun (name, value) => name ++ "=" ++ value

/-- The list as it is shown to a formatter, piece by piece. -/
def shown (p : Parameters) : List String :=
  ["(", ", ".intercalate p.items, ")"]

def text (p : Parameters) : String :=
  String.join p.shown

def element (p : Parameters) : Element :=
  .text p.text

/-- Equal but for the order of the keywords. -/
def same (p q : Parameters) : Bool :=
  p.positional == q.positional && p.keyword.same q.keyword

end Parameters

end Stencil
