import Stencil.Proofs.Rules

/-! Emission as a machine that takes one step at a time. What is still to be done when the task
at hand has ended is kept in frames, and nothing bounds their number: a flush sets the registered
elements aside and runs them, and each of them may register others and flush again. Yet the
machine cannot run forever, from whatever state. -/

namespace Stencil

variable {σ ε : Type}

/-- What follows a task once it has ended. -/
inductive Frame where
  /-- Another task, unless this one failed. -/
  | next (task : Task)
  /-- Another task, if this one failed. -/
  | rescue (task : Task)
  | dedent
  /-- The elements that a flush set aside go before those registered since. -/
  | restore (elements : List Element)

inductive Control (σ ε : Type) where
  | run (task : Task) (w : Writer σ)
  | ended (o : Outcome ε (Writer σ))

structure Machine (σ ε : Type) where
  control : Control σ ε
  frames : List Frame

namespace Machine

/-- Begins a task, and leaves its parts to frames. At most one text is offered to the sink. -/
def start (out : Sink σ ε) (frames : List Frame) : Task → Writer σ → Machine σ ε
  | .adjust a, w => ⟨.ended (.done (w.adjust a)), frames⟩
  | .offer role s, w =>
    match out.append s w.target with
    | .done target => ⟨.ended (.done (w.accept role s target)), frames⟩
    | .failed error target => ⟨.ended (.failed error { w with target := target }), frames⟩
  | .register e, w => ⟨.ended (.done (w.register e)), frames⟩
  | .flush, w =>
    ⟨.run (.visits w.elements) { w with elements := [] }, .restore w.elements :: frames⟩
  | .visit e, w => ⟨.run (.element e) w, frames⟩
  | .element e, w => ⟨.run (e.task w) w, frames⟩
  | .andThen first second, w => ⟨.run first w, .next second :: frames⟩
  | .scope inner, w => ⟨.run inner (w.indent 1), .dedent :: frames⟩
  | .placeholder count e, w =>
    if w.written = count then ⟨.run (.element e) w, frames⟩ else ⟨.ended (.done w), frames⟩
  | .rescue first second, w => ⟨.run first w, .rescue second :: frames⟩
  | .inspect choose, w => ⟨.run (choose w.view) w, frames⟩

def resume (frames : List Frame) (o : Outcome ε (Writer σ)) : Frame → Machine σ ε
  | .next task =>
    match o with
    | .done w => ⟨.run task w, frames⟩
    | .failed error w => ⟨.ended (.failed error w), frames⟩
  | .rescue task =>
    match o with
    | .done w => ⟨.ended (.done w), frames⟩
    | .failed _ w => ⟨.run task w, frames⟩
  | .dedent => ⟨.ended (o.map (·.dedent 1)), frames⟩
  | .restore elements =>
    ⟨.ended (o.map fun v => { v with elements := elements ++ v.elements }), frames⟩

def step (out : Sink σ ε) : Machine σ ε → Option (Machine σ ε)
  | ⟨.run task w, frames⟩ => some (start out frames task w)
  | ⟨.ended o, frame :: frames⟩ => some (resume frames o frame)
  | ⟨.ended _, []⟩ => none

/-- The machine so many steps later, unless it has come to a halt before. -/
def after (out : Sink σ ε) : Nat → Machine σ ε → Option (Machine σ ε)
  | 0, m => some m
  | n + 1, m => (m.step out).bind (after out n)

variable {out : Sink σ ε}

/-- A halt is never half-way: the last task has ended and no frame is left. -/
theorem step_eq_none_iff {m : Machine σ ε} : m.step out = none ↔ ∃ o, m = ⟨.ended o, []⟩ := by
  obtain ⟨control, frames⟩ := m
  cases control with
  | run task w => simp [step]
  | ended o => cases frames <;> simp [step]

theorem after_add {m v u : Machine σ ε} {n k : Nat} (h : m.after out n = some v)
    (h' : v.after out k = some u) : m.after out (n + k) = some u := by
  induction n generalizing m with
  | zero =>
    cases h
    rwa [Nat.zero_add]
  | succ n ih =>
    obtain ⟨next, hstep, hrest⟩ := Option.bind_eq_some_iff.mp h
    rw [Nat.succ_add, after, hstep]
    exact ih hrest

theorem after_succ {m v u : Machine σ ε} {n : Nat} (h : m.step out = some v)
    (h' : v.after out n = some u) : m.after out (n + 1) = some u := by
  rw [after, h]
  exact h'

/-- The task comes to this outcome, whatever frames wait for it. -/
def Returns (out : Sink σ ε) (t : Task) (w : Writer σ) (o : Outcome ε (Writer σ)) : Prop :=
  ∃ n, ∀ frames, after out n ⟨.run t w, frames⟩ = some ⟨.ended o, frames⟩

section Returning

variable {t u : Task} {w v : Writer σ} {o : Outcome ε (Writer σ)}

theorem Returns.of_start (h : ∀ frames, start out frames t w = ⟨.ended o, frames⟩) :
    Returns out t w o :=
  ⟨1, fun frames => after_succ (congrArg some (h frames)) rfl⟩

theorem Returns.of_run (hr : Returns out u v o)
    (h : ∀ frames, start out frames t w = ⟨.run u v, frames⟩) : Returns out t w o := by
  obtain ⟨n, hn⟩ := hr
  exact ⟨n + 1, fun frames => after_succ (congrArg some (h frames)) (hn frames)⟩

theorem Returns.of_frame {frame : Frame} {o' : Outcome ε (Writer σ)} (hr : Returns out u v o)
    (h : ∀ frames, start out frames t w = ⟨.run u v, frame :: frames⟩)
    (h' : ∀ frames, resume frames o frame = ⟨.ended o', frames⟩) : Returns out t w o' := by
  obtain ⟨n, hn⟩ := hr
  refine ⟨n + 1 + 1, fun frames => ?_⟩
  have hinner : after out (n + 1) ⟨.run t w, frames⟩ = some ⟨.ended o, frame :: frames⟩ :=
    after_succ (congrArg some (h frames)) (hn (frame :: frames))
  exact after_add hinner (after_succ (congrArg some (h' frames)) rfl)

/-- A task goes on with another one, if the frame behind the first part says so. -/
theorem Returns.goes_on {s : Task} {frame : Frame} {o' : Outcome ε (Writer σ)}
    (ht : Returns out t w o) (hu : Returns out u v o')
    (h : ∀ frames, start out frames s w = ⟨.run t w, frame :: frames⟩)
    (h' : ∀ frames, resume frames o frame = ⟨.run u v, frames⟩) : Returns out s w o' := by
  obtain ⟨n, hn⟩ := ht
  obtain ⟨k, hk⟩ := hu
  refine ⟨n + 1 + (k + 1), fun frames => ?_⟩
  have hfirst : after out (n + 1) ⟨.run s w, frames⟩ = some ⟨.ended o, frame :: frames⟩ :=
    after_succ (congrArg some (h frames)) (hn (frame :: frames))
  exact after_add hfirst (after_succ (congrArg some (h' frames)) (hk frames))

end Returning

/-- A derivation by the rules is finite, and the machine takes finitely many steps for each
rule in it. -/
theorem returns_of_performs {t : Task} {w : Writer σ} {log : List Activity}
    {o : Outcome ε (Writer σ)} (h : Performs out t w log o) : Returns out t w o := by
  induction h with
  | adjust a w => exact .of_start fun _ => rfl
  | accepted role h => exact .of_start fun _ => by simp [start, h]
  | refused role h => exact .of_start fun _ => by simp [start, h]
  | register e w => exact .of_start fun _ => rfl
  | flush h ih => exact ih.of_frame (fun _ => rfl) fun _ => rfl
  | visit h ih => exact ih.of_run fun _ => rfl
  | element h ih => exact ih.of_run fun _ => rfl
  | andThen ht hu iht ihu => exact iht.goes_on ihu (fun _ => rfl) fun _ => rfl
  | cutShort u ht iht => exact iht.of_frame (fun _ => rfl) fun _ => rfl
  | scope h ih => exact ih.of_frame (fun _ => rfl) fun _ => rfl
  | missing hc h ih => exact ih.of_run fun _ => if_pos hc
  | present e hc => exact .of_start fun _ => if_neg hc
  | unharmed u ht iht => exact iht.of_frame (fun _ => rfl) fun _ => rfl
  | rescued ht hu iht ihu => exact iht.goes_on ihu (fun _ => rfl) fun _ => rfl
  | inspect h ih => exact ih.of_run fun _ => rfl

end Machine

section Totality

variable {out : Sink σ ε}

theorem Element.reaches_task (e : Element) (w : Writer σ) :
    Reaches out (e.task w) w (e.emit out w) := by
  obtain ⟨log, h⟩ : Reaches out (.element e) w (e.emit out w) := e.reaches_emit w
  cases h with
  | element h => exact ⟨log, h⟩

theorem reaches_flush (w : Writer σ) : Reaches out .flush w (Element.flush.emit out w) :=
  Element.flush.reaches_task w

theorem Task.exists_reaches (t : Task) (w : Writer σ) : ∃ o, Reaches out t w o := by
  induction t generalizing w with
  | adjust a => exact ⟨_, _, .adjust a w⟩
  | offer role s =>
    cases hs : out.append s w.target with
    | done target => exact ⟨_, _, .accepted role hs⟩
    | failed error target => exact ⟨_, _, .refused role hs⟩
  | register e => exact ⟨_, _, .register e w⟩
  -- not by induction: what a flush visits is no part of the task, but registered at the writer
  | flush => exact ⟨_, reaches_flush w⟩
  | visit e =>
    obtain ⟨log, h⟩ : Reaches out (.element e) w (e.emit out w) := e.reaches_emit w
    exact ⟨_, _, h.visit⟩
  | element e => exact ⟨_, e.reaches_emit w⟩
  | andThen t u iht ihu =>
    obtain ⟨o, log, ht⟩ := iht w
    cases o with
    | done v =>
      obtain ⟨last, more, hu⟩ := ihu v
      exact ⟨last, _, ht.andThen hu⟩
    | failed error v => exact ⟨_, log, ht.cutShort u⟩
  | scope t ih =>
    obtain ⟨o, h⟩ := ih (w.indent 1)
    exact ⟨_, h.scope⟩
  | placeholder count e =>
    by_cases hc : w.written = count
    · obtain ⟨log, h⟩ : Reaches out (.element e) w (e.emit out w) := e.reaches_emit w
      exact ⟨_, log, h.missing hc⟩
    · exact ⟨_, _, .present e hc⟩
  | rescue t u iht ihu =>
    obtain ⟨o, log, ht⟩ := iht w
    cases o with
    | done v => exact ⟨_, log, ht.unharmed u⟩
    | failed error v =>
      obtain ⟨last, more, hu⟩ := ihu v
      exact ⟨last, _, ht.rescued hu⟩
  | inspect choose ih =>
    obtain ⟨o, h⟩ := ih w.view w
    exact ⟨o, h.inspect⟩

end Totality

namespace Machine

variable {out : Sink σ ε}

def Follows (out : Sink σ ε) (next m : Machine σ ε) : Prop :=
  m.step out = some next

theorem acc_of_after {m v : Machine σ ε} {n : Nat} (h : m.after out n = some v)
    (hv : Acc (Follows out) v) : Acc (Follows out) m := by
  induction n generalizing m with
  | zero =>
    cases h
    exact hv
  | succ n ih =>
    obtain ⟨next, hstep, hrest⟩ := Option.bind_eq_some_iff.mp h
    -- a machine has one successor only
    refine .intro m fun other hother => ?_
    cases hother.symm.trans hstep
    exact ih hrest

theorem acc_run {t : Task} {w : Writer σ} {frames : List Frame}
    (h : ∀ o, Acc (Follows out) ⟨.ended o, frames⟩) : Acc (Follows out) ⟨.run t w, frames⟩ := by
  obtain ⟨o, log, ho⟩ : ∃ o, Reaches out t w o := t.exists_reaches w
  obtain ⟨n, hn⟩ := returns_of_performs ho
  exact acc_of_after (hn frames) (h o)

theorem acc_ended (frames : List Frame) (o : Outcome ε (Writer σ)) :
    Acc (Follows out) ⟨.ended o, frames⟩ := by
  induction frames generalizing o with
  | nil => exact .intro _ fun next hnext => by cases hnext
  | cons frame frames ih =>
    refine .intro _ fun next hnext => ?_
    cases hnext
    -- a task that begins here comes back to the remaining frames
    cases frame with
    | next task =>
      cases o with
      | done w => exact acc_run ih
      | failed error w => exact ih _
    | rescue task =>
      cases o with
      | done w => exact ih _
      | failed error w => exact acc_run ih
    | dedent => exact ih _
    | restore elements => exact ih _

theorem wellFounded_follows (out : Sink σ ε) : WellFounded (Follows out) := by
  refine ⟨fun m => ?_⟩
  obtain ⟨control, frames⟩ := m
  cases control with
  | run task w => exact acc_run (acc_ended frames)
  | ended o => exact acc_ended frames o

end Machine

/-- No run goes on forever: from every state of the machine, with any frames, registered elements
and sink, a halt is reached, and only with nothing left to do. An element that is run comes
back to its frames after finitely many steps with the outcome of its emission, and so does every
flush, wherever it is called. -/
theorem every_run_ends (out : Sink σ ε) :
    WellFounded (Machine.Follows out) ∧
    (∀ m : Machine σ ε, m.step out = none ↔ ∃ o, m = ⟨.ended o, []⟩) ∧
    (∀ (e : Element) (w : Writer σ), ∃ n, ∀ frames,
      Machine.after out n ⟨.run (.element e) w, frames⟩ = some ⟨.ended (e.emit out w), frames⟩) ∧
    ∀ w : Writer σ, ∃ n, ∀ frames,
      Machine.after out n ⟨.run .flush w, frames⟩ =
        some ⟨.ended (Element.flush.emit out w), frames⟩ := by
  refine ⟨Machine.wellFounded_follows out, fun m => Machine.step_eq_none_iff, fun e w => ?_,
    fun w => ?_⟩
  · obtain ⟨log, h⟩ : Reaches out (.element e) w (e.emit out w) := e.reaches_emit w
    exact Machine.returns_of_performs h
  · obtain ⟨log, h⟩ : Reaches out .flush w (Element.flush.emit out w) := reaches_flush w
    exact Machine.returns_of_performs h

end Stencil
