import Stencil.Code.Conditional
import Stencil.Code.Definition
import Stencil.Code.Module
import Stencil.Sink.Bounded

/-! What can be shown without a writer at hand. Definitions, conditionals and imports are shown in
the plain style and modules in their own, each by a writer of its own. A parameter list is shown as
it is. -/

namespace Stencil

variable {σ ε : Type}

def Element.showTo (out : Sink σ ε) (e : Element) (target : σ) : Outcome ε σ :=
  (e.emit out (Writer.ofStyle .plain target)).map Writer.target

/-- Registers the module with a writer of its style, and writes what is registered. -/
def Module.renderTo (out : Sink σ ε) (m : Module) (target : σ) : Outcome ε σ :=
  (Element.flush.emit out ((Writer.ofStyle m.style target).register m.element)).map Writer.target

inductive Displayed where
  | function (f : Function)
  | classDef (c : Class)
  | conditional (c : Conditional)
  | imports (i : Imports)
  | parameters (p : Parameters)
  | module (m : Module)

namespace Displayed

def showTo (out : Sink σ ε) : Displayed → σ → Outcome ε σ
  | function f => f.element.showTo out
  | classDef c => c.element.showTo out
  | conditional c => c.element.showTo out
  | imports i => i.element.showTo out
  | parameters p => out.appendAll p.shown
  | module m => m.renderTo out

/-- The same as one string. -/
def text : Displayed → String
  | function f => f.element.render .plain
  | classDef c => c.element.render .plain
  | conditional c => c.element.render .plain
  | imports i => i.element.render .plain
  | parameters p => p.text
  | module m => m.render

end Displayed

end Stencil
