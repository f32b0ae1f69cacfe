/-! Destinations of text. A sink is offered one text at a time and accepts or refuses it;
a refusal carries the sink's own error, and may still leave a mark on the sink. -/

namespace Stencil

/-- What is left of a state after an action on it: the action was done, or it failed on
the way. -/
inductive Outcome (ε α : Type) where
  | done (state : α)
  | failed (error : ε) (state : α)

namespace Outcome

variable {ε α β : Type}

def state : Outcome ε α → α
  | done a => a
  | failed _ a => a

def error? : Outcome ε α → Option ε
  | done _ => none
  | failed e _ => some e

/-- Goes on with `next` unless the action failed. -/
@[inline] def andThen (o : Outcome ε α) (next : α → Outcome ε α) : Outcome ε α :=
  match o with
  | done a => next a
  | failed e a => failed e a

/-- Changes the state, whether the action failed or not. -/
@[inline] def map (f : α → β) : Outcome ε α → Outcome ε β
  | done a => done (f a)
  | failed e a => failed e (f a)

@[simp] theorem andThen_done (a : α) (next : α → Outcome ε α) : (done a).andThen next = next a :=
  rfl

@[simp] theorem andThen_failed (e : ε) (a : α) (next : α → Outcome ε α) :
    (failed e a).andThen next = failed e a :=
  rfl

@[simp] theorem map_done (f : α → β) (a : α) : (done a : Outcome ε α).map f = done (f a) :=
  rfl

@[simp] theorem map_failed (f : α → β) (e : ε) (a : α) : (failed e a).map f = failed e (f a) :=
  rfl

@[simp] theorem state_map (f : α → β) (o : Outcome ε α) : (o.map f).state = f o.state := by
  cases o <;> rfl

@[simp] theorem error?_map (f : α → β) (o : Outcome ε α) : (o.map f).error? = o.error? := by
  cases o <;> rfl

end Outcome

structure Sink (σ ε : Type) where
  append : String → σ → Outcome ε σ

/-- Offers texts one after the other, up to the first that is refused. -/
def Sink.appendAll {σ ε : Type} (out : Sink σ ε) : List String → σ → Outcome ε σ
  | [], target => .done target
  | s :: rest, target => (out.append s target).andThen (out.appendAll rest)

/-- A text that grows without bound. -/
def Sink.text {ε : Type} : Sink String ε where
  append s target := .done (target ++ s)

end Stencil
