import Stencil.Code.Name
import Stencil.Manifest.Basic
import Stencil.Text.Find

/-! Whether the names in a manifest make sense in Python. Checks go through the manifest
in order and stop at the first fault. Faults point into the document that the manifest was
read from. -/

namespace Stencil

inductive Fault where
  /-- A text that is no name. `kind` says what it was to be. -/
  | badName (name kind : String) (flaw : NameFlaw) (place : Option Span)
  | duplicate (name kind : String) (first second : Option Span)
  | other (message : String) (place : Option Span)
deriving DecidableEq, Repr

instance decidableEqOk {α ε : Type} [DecidableEq α] (x : Except ε α) (a : α) :
    Decidable (x = .ok a) :=
  match x with
  | .ok b => decidable_of_iff (b = a) (by simp)
  | .error _ => isFalse nofun

/-- Runs a check on each item until one fails. -/
def checkAll {α ε : Type} (check : α → Except ε Unit) : List α → Except ε Unit
  | [] => .ok ()
  | a :: as => match check a with
    | .ok () => checkAll check as
    | .error e => .error e

def inQuotes (name : String) : List Char :=
  '"' :: name.toList ++ ['"']

def spanAt (name : String) (start : Nat) : Span :=
  ⟨start, start + name.utf8ByteSize⟩

/-- Where a name stands in a document: in quotes if it does, or else anywhere. -/
def placeOf? (document name : String) : Option Span :=
  if name.isEmpty then none
  else match find? (inQuotes name) document.toList with
    | some start => some (spanAt name (start + 1))
    | none => (find? name.toList document.toList).map (spanAt name)

/-- The first two places at which a name stands in quotes. -/
def placesOf (document name : String) : Option Span × Option Span :=
  ((find? (inQuotes name) document.toList).map fun start => spanAt name (start + 1),
   (findSecond? (inQuotes name) document.toList).map fun start => spanAt name (start + 1))

/-- A part of a manifest: the document around it, and the names of the definitions that it
lies in. -/
structure Scope where
  document : String
  path : List String := []

namespace Scope

def inside (s : Scope) (name : String) : Scope :=
  { s with path := s.path ++ [name] }

def pathText (s : Scope) : String :=
  ".".intercalate s.path

/-- What a name is to be, and where. -/
def kindHere (s : Scope) (kind : String) : String :=
  if s.path.isEmpty then kind else kind ++ " in '" ++ s.pathText ++ "'"

def nameFault (s : Scope) (kind name : String) (flaw : NameFlaw) : Fault :=
  .badName name (s.kindHere kind) flaw (placeOf? s.document name)

def otherFault (s : Scope) (message needle : String) : Fault :=
  .other message (placeOf? s.document needle)

def checkName (s : Scope) (kind name : String) : Except Fault Unit :=
  match nameFlaw? name with
  | some flaw => .error (s.nameFault kind name flaw)
  | none => .ok ()

def checkDotted (s : Scope) (kind name : String) : Except Fault Unit :=
  match dottedFlaw? name with
  | some (part, flaw) => .error (s.nameFault kind part flaw)
  | none => .ok ()

/-- A positional parameter: a marker, or a name with stars before it or an annotation
after it. -/
def checkParameter (s : Scope) (arg : String) : Except Fault Unit :=
  let trimmed := trim arg
  if trimmed = "/" || trimmed = "*" then .ok ()
  else s.checkName "parameter" (parameterName trimmed)

/-- The first name that occurs among those before it. -/
def firstRepeated? (seen : List String) : List String → Option String
  | [] => none
  | name :: names =>
    if seen.contains name then some name else firstRepeated? (name :: seen) names

def checkDistinct (s : Scope) (kind : String) (names : List String) : Except Fault Unit :=
  match firstRepeated? [] names with
  | some name =>
    let (first, second) := placesOf s.document name
    .error (.duplicate name (s.kindHere kind) first second)
  | none => .ok ()

def checkAlias (s : Scope) (i : ImportDecl) (localName : String) : Except Fault Unit :=
  if i.symbols.isEmpty then s.checkName "import alias" localName
  else .error (s.otherFault
    ("import of '" ++ i.source ++ "' cannot have both an alias and symbols") localName)

def checkSymbol (s : Scope) (symbol : String) : Except Fault Unit :=
  if symbol = "*" then .ok () else s.checkName "imported symbol" symbol

def checkImport (s : Scope) (i : ImportDecl) : Except Fault Unit := do
  s.checkDotted "import" i.source
  checkAll (s.checkAlias i) i.localName.toList
  checkAll s.checkSymbol i.symbols

def checkDecoration (s : Scope) (d : Decoration) : Except Fault Unit := do
  s.checkDotted "decorator" d.target
  match d with
  | .named _ => .ok ()
  | .call _ _ kwargs => checkAll (fun b => s.checkName "decorator argument" b.name) kwargs

def checkFunction (s : Scope) (f : FunctionDecl) : Except Fault Unit := do
  s.checkName "function" f.name
  let s := s.inside f.name
  checkAll s.checkDecoration f.decorators
  checkAll s.checkParameter f.args
  checkAll (fun b => s.checkName "parameter" b.name) f.kwargs
  s.checkDistinct "parameter" f.parameterNames

def checkClass (s : Scope) (c : ClassDecl) : Except Fault Unit := do
  s.checkName "class" c.name
  let s := s.inside c.name
  checkAll (s.checkDotted "parent class") c.parents
  checkAll s.checkDecoration c.decorators
  checkAll (fun b => s.checkName "attribute" b.name) c.attributes
  s.checkDistinct "method" (c.methods.map FunctionDecl.name)
  checkAll s.checkFunction c.methods

end Scope

/-- The names that a manifest defines. -/
def Manifest.definedNames (m : Manifest) : List String :=
  m.classes.map ClassDecl.name ++ m.functions.map FunctionDecl.name

/-- Checks a manifest that was read from the given document. -/
def Manifest.check (m : Manifest) (document : String) : Except Fault Unit := do
  let s : Scope := { document := document }
  s.checkDotted "module" m.info.name
  checkAll s.checkImport m.imports
  s.checkDistinct "top-level definition" m.definedNames
  checkAll s.checkClass m.classes
  checkAll s.checkFunction m.functions

end Stencil
