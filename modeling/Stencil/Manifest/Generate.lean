import Stencil.Code.Definition
import Stencil.Code.Module
import Stencil.Manifest.Basic

/-! The Python module that a manifest describes. -/

namespace Stencil

def bindingPairs (bindings : List Binding) : List (String × String) :=
  bindings.map fun b => (b.name, b.value)

def Decoration.decorator : Decoration → Decorator
  | .named name => { name := name }
  | .call name args kwargs =>
    { name := name, arguments := some ((({} : Parameters).args args).kwargs (bindingPairs kwargs)) }

/-- What one declared import adds: its symbols, or the module under its alias, or the
module. -/
def ImportDecl.addTo (imports : Imports) (i : ImportDecl) : Imports :=
  if i.symbols.isEmpty then
    match i.localName with
    | some localName => imports.addAlias i.source localName
    | none => imports.addModule i.source
  else i.symbols.foldl (fun known symbol => known.addSymbol i.source symbol) imports

def FunctionDecl.function (f : FunctionDecl) : Function :=
  let header : Function :=
    { name := f.name
      decorators := f.decorators.map Decoration.decorator
      isAsync := f.isAsync
      params := (({} : Parameters).args f.args).kwargs (bindingPairs f.kwargs)
      returns := f.returns
      doc := f.doc }
  (f.body.map header.bodyText).getD header

def ClassDecl.class (c : ClassDecl) : Class :=
  let header : Class :=
    { name := c.name
      parents := c.parents
      decorators := c.decorators.map Decoration.decorator
      doc := c.doc }
  let withAttributes := c.attributes.foldl (fun k b => k.attr b.name b.value) header
  c.methods.foldl (fun k f => k.method f.function) withAttributes

namespace Manifest

def collectedImports (m : Manifest) : Imports :=
  m.imports.foldl ImportDecl.addTo {}

/-- Classes come before functions. -/
def module (m : Manifest) : Module where
  name := m.info.name
  header := m.info.header.bind visible
  doc := m.info.doc.bind visible
  imports := m.collectedImports
  body := m.classes.map (fun c => c.class.element) ++ m.functions.map (fun f => f.function.element)
  style := m.style

end Manifest

end Stencil
