import Stencil.Code.Statement

/-! Conditionals: a first branch, any number of further branches with conditions of their
own, and a branch for all other cases. -/

namespace Stencil

structure Branch where
  condition : Element
  body : List Element := []

def Branch.header (keyword : String) (b : Branch) : Element :=
  .seq [.text keyword, .text " ", b.condition, .text ":", .lineFeed]

def Branch.element (keyword : String) (b : Branch) : Element :=
  .seq [.text keyword, .text " ", b.condition, .text ":", .lineFeed, .body b.body .pass]

/-- The branch taken when no condition holds. -/
def otherwiseElement (body : List Element) : Element :=
  .seq [.line "else:", .body body .pass]

structure Conditional where
  first : Branch
  elifs : List Branch := []
  otherwise : Option (List Element) := none

namespace Conditional

def child (c : Conditional) (e : Element) : Conditional :=
  { c with first := { c.first with body := c.first.body ++ [e] } }

/-- Attaches another conditional as a further branch. It brings its own further branches
along only if the last branch is still open; after an `else`, its first branch goes
before that `else` and the rest of it is dropped. -/
def elif (c d : Conditional) : Conditional :=
  match c.otherwise with
  | some _ => { c with elifs := c.elifs ++ [d.first] }
  | none => { c with elifs := c.elifs ++ d.first :: d.elifs, otherwise := d.otherwise }

def orElse (c : Conditional) (body : List Element) : Conditional :=
  { c with otherwise := some body }

/-- The conditional as it stands after `keyword`: `if`, or `elif` when it continues
another. -/
def elementAs (keyword : String) (c : Conditional) : Element :=
  .seq (c.first.element keyword :: c.elifs.map (Branch.element "elif")
    ++ (c.otherwise.map otherwiseElement).toList)

def element (c : Conditional) : Element :=
  c.elementAs "if"

end Conditional

end Stencil
