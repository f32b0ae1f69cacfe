import Stencil.Catalog
import Stencil.Element

/-! The imports of a module, collected from many places: whole modules with or without an
alias, and symbols taken from modules. -/

namespace Stencil

/-- Puts a string into an increasing list, unless it is there. -/
def insertSorted (s : String) : List String → List String
  | [] => [s]
  | t :: rest =>
    if s = t then t :: rest
    else if s < t then s :: t :: rest
    else t :: insertSorted s rest

structure Imports where
  modules : Catalog (Option String) := {}
  symbols : Catalog (List String) := {}

namespace Imports

/-- Imports a module, under the alias that it may have already. -/
def addModule (i : Imports) (name : String) : Imports :=
  { i with modules := i.modules.update name (·.getD none) }

def addAlias (i : Imports) (name localName : String) : Imports :=
  { i with modules := i.modules.put name (some localName) }

def addSymbol (i : Imports) (name symbol : String) : Imports :=
  { i with symbols := i.symbols.update name fun known => insertSorted symbol (known.getD []) }

/-- Imports everything that `other` imports. -/
def merge (i other : Imports) : Imports where
  modules := other.modules.entries.foldl
    (fun known (name, given) => known.update name fun old => given <|> old.getD none) i.modules
  symbols := other.symbols.entries.foldl
    (fun known (name, symbols) =>
      known.update name fun old => symbols.foldl (fun set s => insertSorted s set) (old.getD []))
    i.symbols

def hasModule (i : Imports) (name : String) : Bool :=
  i.modules.has name || i.symbols.has name

def hasSymbol (i : Imports) (name symbol : String) : Bool :=
  ((i.symbols.get? name).getD []).contains symbol

def isEmpty (i : Imports) : Bool :=
  i.modules.isEmpty && i.symbols.isEmpty

def size (i : Imports) : Nat :=
  i.modules.size + i.symbols.size

/-- Equal but for the order of the modules. -/
def same (i j : Imports) : Bool :=
  i.modules.same j.modules && i.symbols.same j.symbols

def moduleLine : String × Option String → String
  | (name, some localName) => "import " ++ name ++ " as " ++ localName
  | (name, none) => "import " ++ name

def symbolsLine : String × List String → String
  | (name, symbols) => "from " ++ name ++ " import " ++ ", ".intercalate symbols

def statements (i : Imports) : List String :=
  i.modules.entries.map moduleLine ++ i.symbols.entries.map symbolsLine

def element (i : Imports) : Element :=
  .seq (i.statements.map .line)

end Imports

end Stencil
