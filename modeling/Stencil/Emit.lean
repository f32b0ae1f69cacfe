import Stencil.Writer

/-! Writing an element. An element may register others and have the writer flush them
while it is being written itself. A flush visits only what was registered since the
innermost flush around it began, so registrations nest less deeply there, and their rank
bounds how far flushes nest. Whether the children of a body write anything is told from the
bytes counted in all, which tells the same as the counter until that is full. -/

namespace Stencil

variable {σ ε : Type}

mutual

/-- Writes an element, where `flush` writes the registered ones. -/
def Element.run (out : Sink σ ε) (flush : Writer σ → Outcome ε (Writer σ)) :
    Element → Writer σ → Outcome ε (Writer σ)
  | .text s, w => w.write out s
  | .lineFeed, w => w.lineFeed out
  | .freshLine, w => w.freshLine out
  | .seq parts, w => Element.runAll out flush parts w
  | .indented parts, w => (Element.runAll out flush parts (w.indent 1)).map (·.dedent 1)
  | .body children placeholder, w =>
    (((Element.runAll out flush children (w.indent 1)).andThen fun v =>
        if v.written = w.written then placeholder.run out flush v else .done v).map
      (·.dedent 1)).andThen (·.freshLine out)
  | .indent levels, w => .done (w.indent levels)
  | .dedent levels, w => .done (w.dedent levels)
  | .reset, w => .done w.reset
  | .register element, w => .done (w.register element)
  | .flush, w => flush w

def Element.runAll (out : Sink σ ε) (flush : Writer σ → Outcome ε (Writer σ)) :
    List Element → Writer σ → Outcome ε (Writer σ)
  | [], w => .done w
  | e :: es, w => (e.run out flush w).andThen (Element.runAll out flush es)

end

/-- Writes an element with flushes nested at most `level` deep. -/
def Element.emitAt (out : Sink σ ε) : Nat → Element → Writer σ → Outcome ε (Writer σ)
  | 0, e => e.run out .done
  | level + 1, e => e.run out (Writer.flushWith (emitAt out level))

def Element.emit (out : Sink σ ε) (e : Element) (w : Writer σ) : Outcome ε (Writer σ) :=
  e.emitAt out (max e.rank (Element.registeredRank w.elements)) w

/-- The text of an element alone. -/
def Element.render (style : Style) (e : Element) : String :=
  (e.emit (Sink.text : Sink String Empty) (Writer.ofStyle style "")).state.target

end Stencil
