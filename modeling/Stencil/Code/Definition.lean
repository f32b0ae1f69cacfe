import Stencil.Code.Parameters
import Stencil.Code.Statement

/-! Functions and classes. -/

namespace Stencil

/-- A decorator, called with arguments or only named. -/
structure Decorator where
  name : String
  arguments : Option Parameters := none

def Decorator.element (d : Decorator) : Element :=
  .seq [.text ("@" ++ d.name), (d.arguments.map Parameters.element).getD .empty, .lineFeed]

/-- The docstring one level deeper, if there is one. -/
def docElement (doc : Option String) : Element :=
  .indented (doc.map Element.docstring).toList

structure Function where
  name : String
  decorators : List Decorator := []
  isAsync : Bool := false
  params : Parameters := {}
  returns : Option String := none
  doc : Option String := none
  body : List Element := []

namespace Function

def arg (f : Function) (name : String) : Function :=
  { f with params := f.params.arg name }

def kwarg (f : Function) (name value : String) : Function :=
  { f with params := f.params.kwarg name value }

def decorator (f : Function) (d : Decorator) : Function :=
  { f with decorators := f.decorators ++ [d] }

def child (f : Function) (e : Element) : Function :=
  { f with body := f.body ++ [e] }

def bodyLine (f : Function) (s : String) : Function :=
  f.child (.line s)

/-- Adds the lines of a text; a blank text adds nothing. -/
def bodyText (f : Function) (s : String) : Function :=
  if isBlankText s then f else f.child (.stack (lines s))

def header (f : Function) : Element :=
  .seq (f.decorators.map Decorator.element
    ++ [.text ((if f.isAsync then "async " else "") ++ "def " ++ f.name ++ f.params.text)]
    ++ (f.returns.map fun r => .text (" -> " ++ r)).toList
    ++ [.text ":", .lineFeed, docElement f.doc])

def element (f : Function) : Element :=
  .block f.header f.body .pass .empty

end Function

structure Class where
  name : String
  parents : List String := []
  decorators : List Decorator := []
  doc : Option String := none
  body : List Element := []

namespace Class

def decorator (c : Class) (d : Decorator) : Class :=
  { c with decorators := c.decorators ++ [d] }

def child (c : Class) (e : Element) : Class :=
  { c with body := c.body ++ [e] }

def attr (c : Class) (name value : String) : Class :=
  c.child (.assign name value)

/-- Adds a method, an empty line before it unless it comes first. -/
def method (c : Class) (f : Function) : Class :=
  { c with body := c.body ++ (if c.body.isEmpty then [] else [.blankLine]) ++ [f.element] }

/-- A class without parents extends `object`. -/
def bases (c : Class) : String :=
  if c.parents.isEmpty then "object" else ", ".intercalate c.parents

def header (c : Class) : Element :=
  .seq (c.decorators.map Decorator.element
    ++ [.text ("class " ++ c.name ++ "(" ++ c.bases ++ "):"), .lineFeed, docElement c.doc])

def element (c : Class) : Element :=
  .block c.header c.body .pass .empty

end Class

end Stencil
