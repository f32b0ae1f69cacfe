import Stencil.Code.Imports
import Stencil.Code.Statement
import Stencil.Emit
import Stencil.Files.Path

/-! A whole module: a comment at its head, a docstring, the imports, and the definitions,
with one empty line between the former and two before each of the latter. -/

namespace Stencil

structure Module where
  name : String
  header : Option String := none
  doc : Option String := none
  imports : Imports := {}
  body : List Element := []
  style : Style := {}

/-- The text, unless it is blank. -/
def visible (s : String) : Option String :=
  if isBlankText s then none else some s

/-- A fresh line, then so many empty ones. -/
def gap (count : Nat) : Element :=
  .seq (.freshLine :: List.replicate count .lineFeed)

namespace Module

def withHeader (m : Module) (s : String) : Module :=
  { m with header := visible s }

def withDoc (m : Module) (s : String) : Module :=
  { m with doc := visible s }

def mergeImports (m : Module) (i : Imports) : Module :=
  { m with imports := m.imports.merge i }

def push (m : Module) (e : Element) : Module :=
  { m with body := m.body ++ [e] }

def isEmpty (m : Module) : Bool :=
  m.header.isNone && m.doc.isNone && m.imports.isEmpty && m.body.isEmpty

/-- The path of its file, below the directory of all modules. -/
def relativePath (m : Module) : String :=
  String.ofList (m.name.toList.map fun c => if c = '.' then '/' else c) ++ ".py"

/-- The path of its file, if `base` is the directory of all modules. -/
def path (m : Module) (base : String) : String :=
  joinPath base m.relativePath

/-- What comes before the definitions. -/
def sections (m : Module) : List Element :=
  (m.header.map Element.comment).toList
    ++ (m.doc.map Element.docstring).toList
    ++ (if m.imports.isEmpty then [] else [m.imports.element])

/-- The definitions, each after two empty lines, save one that starts the file. -/
def definitions (m : Module) : List Element :=
  if m.sections.isEmpty then m.body.intersperse (gap 2)
  else m.body.flatMap fun e => [gap 2, e]

def element (m : Module) : Element :=
  .seq (m.sections.intersperse (gap 1) ++ m.definitions ++ [.freshLine])

def render (m : Module) : String :=
  m.element.render m.style

end Module

end Stencil
