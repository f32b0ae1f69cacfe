import Stencil.Element
import Stencil.Sink
import Stencil.Style
import Stencil.Text.Quoted

/-! A writer puts indented lines into a sink. It appends the indentation of a line
together with the first text on it, so that empty lines stay empty, and counts the bytes
of text and line ends that the sink accepted. It reports them by a counter of 64 bits, which
begins anew at zero when it is full. -/

namespace Stencil

/-- Depths stay below this bound; going beyond it leaves the depth at the bound. -/
def maxDepth : Nat :=
  18446744073709551615

/-- `written` is the number of bytes counted in all, and `target` the state of the sink. -/
structure Writer (σ : Type) where
  unit : String
  terminator : String
  depth : Nat := 0
  atLineStart : Bool := true
  written : Nat := 0
  elements : List Element := []
  target : σ

namespace Writer

variable {σ ε : Type}

def ofStyle (style : Style) (target : σ) : Writer σ where
  unit := style.indent.unit
  terminator := style.lineEnding.terminator
  target := target

/-- The bytes counted, as far as the counter can hold them. -/
def bytesWritten (w : Writer σ) : UInt64 :=
  UInt64.ofNat w.written

def indent (levels : Nat) (w : Writer σ) : Writer σ :=
  { w with depth := min (w.depth + levels) maxDepth }

def dedent (levels : Nat) (w : Writer σ) : Writer σ :=
  { w with depth := w.depth - levels }

def reset (w : Writer σ) : Writer σ :=
  { w with depth := 0, atLineStart := true }

def register (element : Element) (w : Writer σ) : Writer σ :=
  { w with elements := w.elements ++ [element] }

/-- Offers one text to the sink. -/
def offer (out : Sink σ ε) (s : String) (w : Writer σ) : Outcome ε (Writer σ) :=
  (out.append s w.target).map fun target => { w with target := target }

/-- Offers one text and counts it. -/
def offerCounted (out : Sink σ ε) (s : String) (w : Writer σ) : Outcome ε (Writer σ) :=
  (w.offer out s).andThen fun v => .done { v with written := v.written + s.utf8ByteSize }

/-- Offers the unit of indentation so many times. -/
def pad (out : Sink σ ε) : Nat → Writer σ → Outcome ε (Writer σ)
  | 0, w => .done w
  | levels + 1, w => (w.offer out w.unit).andThen (pad out levels)

/-- Indents the line if nothing stands on it yet. -/
def openLine (out : Sink σ ε) (w : Writer σ) : Outcome ε (Writer σ) :=
  if w.atLineStart then
    (w.pad out w.depth).andThen fun v => .done { v with atLineStart := false }
  else .done w

def write (out : Sink σ ε) (s : String) (w : Writer σ) : Outcome ε (Writer σ) :=
  if s.isEmpty then .done w
  else (w.openLine out).andThen (offerCounted out s)

def lineFeed (out : Sink σ ε) (w : Writer σ) : Outcome ε (Writer σ) :=
  (w.offerCounted out w.terminator).andThen fun v => .done { v with atLineStart := true }

def freshLine (out : Sink σ ε) (w : Writer σ) : Outcome ε (Writer σ) :=
  if w.atLineStart then .done w else w.lineFeed out

/-- The registered elements in order, each written by `visit`. What they register
themselves comes after them, and is not visited. -/
def flushWith (visit : Element → Writer σ → Outcome ε (Writer σ)) (w : Writer σ) :
    Outcome ε (Writer σ) :=
  (visitAll w.elements { w with elements := [] }).map fun v =>
    { v with elements := w.elements ++ v.elements }
where
  visitAll : List Element → Writer σ → Outcome ε (Writer σ)
    | [], w => .done w
    | e :: es, w => (visit e w).andThen (visitAll es)

def describe (w : Writer σ) : String :=
  "SourceWriter \x7b unit: " ++ quoted w.unit
    ++ ", line_terminator: " ++ quoted w.terminator
    ++ ", depth: " ++ w.depth.repr
    ++ ", at_line_start: " ++ (if w.atLineStart then "true" else "false")
    ++ ", written: " ++ w.bytesWritten.toNat.repr
    ++ ", elements: " ++ w.elements.length.repr ++ ", .. \x7d"

/-- The description of a writer that is set up for Python. -/
def describePython (w : Writer σ) : String :=
  "PythonWriter(" ++ w.describe ++ ")"

end Writer

end Stencil
