import Stencil.Emit

/-! The record of a session with a writer: what each step left behind, and whether it
failed. A scope holds steps that run one level deeper; the first failure among them ends
the scope and is its own. An attempt forgets the failure and goes on with other steps.
What comes next may also depend on what the writer tells of itself. -/

namespace Stencil

structure View where
  unit : String
  terminator : String
  depth : Nat
  atLineStart : Bool
  bytesWritten : UInt64

inductive Step where
  | write (element : Element)
  | scope (inner : List Step)
  /-- The inner steps up to the first failure, and after a failure those of `rescue`. -/
  | attempt (inner rescue : List Step)
  | inspect (choose : View → Step)

/-- One step's record: the writer after it, its failure, and the records of the
steps inside it. -/
inductive Entry (σ ε : Type) where
  | mk (after : Writer σ) (failure : Option ε) (inner : List (Entry σ ε))

variable {σ ε : Type}

def Writer.view (w : Writer σ) : View where
  unit := w.unit
  terminator := w.terminator
  depth := w.depth
  atLineStart := w.atLineStart
  bytesWritten := w.bytesWritten

namespace Entry

def after : Entry σ ε → Writer σ
  | mk w _ _ => w

def failure : Entry σ ε → Option ε
  | mk _ f _ => f

def inner : Entry σ ε → List (Entry σ ε)
  | mk _ _ es => es

def ofOutcome (o : Outcome ε (Writer σ)) (inner : List (Entry σ ε)) : Entry σ ε :=
  mk o.state o.error? inner

def outcome (entry : Entry σ ε) : Outcome ε (Writer σ) :=
  match entry.failure with
  | none => .done entry.after
  | some error => .failed error entry.after

/-- How a record ends that began with the writer `w`. -/
def lastOutcome (w : Writer σ) (entries : List (Entry σ ε)) : Outcome ε (Writer σ) :=
  (entries.getLast?.map outcome).getD (.done w)

end Entry

mutual

def Step.record (out : Sink σ ε) : Step → Writer σ → Entry σ ε
  | .write element, w => .ofOutcome (element.emit out w) []
  | .scope inner, w =>
    let entries := Step.recordScope out inner (w.indent 1)
    .ofOutcome ((Entry.lastOutcome (w.indent 1) entries).map (·.dedent 1)) entries
  | .attempt inner rescue, w =>
    let entries := Step.recordScope out inner w
    match Entry.lastOutcome w entries with
    | .done v => .ofOutcome (.done v) entries
    | .failed _ v =>
      let more := Step.recordScope out rescue v
      .ofOutcome (Entry.lastOutcome v more) (entries ++ more)
  | .inspect choose, w => (choose w.view).record out w

def Step.recordScope (out : Sink σ ε) : List Step → Writer σ → List (Entry σ ε)
  | [], _ => []
  | c :: cs, w =>
    let entry := c.record out w
    entry :: if entry.failure.isSome then [] else Step.recordScope out cs entry.after

end

/-- Records steps one after the other, whether they fail or not. -/
def transcript (out : Sink σ ε) : List Step → Writer σ → List (Entry σ ε)
  | [], _ => []
  | c :: cs, w =>
    let entry := c.record out w
    entry :: transcript out cs entry.after

end Stencil
