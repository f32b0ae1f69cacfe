import Stencil.Style
import Stencil.Text.Blank

/-! The description of a Python module: what it imports and what it defines. -/

namespace Stencil

/-- A name with a value: a keyword argument, or an attribute of a class. -/
structure Binding where
  name : String := ""
  value : String := ""
deriving DecidableEq, Repr

inductive Decoration where
  | named (name : String)
  | call (name : String) (args : List String) (kwargs : List Binding)
deriving DecidableEq, Repr

def Decoration.target : Decoration → String
  | .named n => n
  | .call n _ _ => n

structure FunctionDecl where
  name : String := ""
  args : List String := []
  kwargs : List Binding := []
  returns : Option String := none
  isAsync : Bool := false
  decorators : List Decoration := []
  doc : Option String := none
  body : Option String := none
deriving DecidableEq, Repr

structure ClassDecl where
  name : String := ""
  parents : List String := []
  decorators : List Decoration := []
  doc : Option String := none
  attributes : List Binding := []
  methods : List FunctionDecl := []
deriving DecidableEq, Repr

structure ImportDecl where
  source : String := ""
  localName : Option String := none
  symbols : List String := []
deriving DecidableEq, Repr

structure ModuleInfo where
  name : String := ""
  header : Option String := none
  doc : Option String := none
deriving DecidableEq, Repr

structure Manifest where
  info : ModuleInfo := {}
  style : Style := {}
  imports : List ImportDecl := []
  classes : List ClassDecl := []
  functions : List FunctionDecl := []
deriving DecidableEq, Repr

/-- The name that a positional parameter introduces: what stands before its annotation,
without stars. -/
def parameterName (arg : String) : String :=
  String.ofList ((trimBoth (arg.toList.takeWhile (· != ':'))).dropWhile (· == '*'))

/-- The names that the parameters introduce. The markers `*` and `/` introduce none. -/
def FunctionDecl.parameterNames (f : FunctionDecl) : List String :=
  (f.args.map parameterName).filter (fun name => !name.isEmpty && name != "/")
    ++ f.kwargs.map Binding.name

def Manifest.definitionCount (m : Manifest) : Nat :=
  m.classes.length + m.functions.length

end Stencil
