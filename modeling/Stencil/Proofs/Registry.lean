import Stencil.Proofs.Rules

/-! The registered elements in the course of a session. A flush sets the list aside and merges
it back however the flush ends, so at every level the list holds what was registered since the
innermost flush around began, and in the end nothing is lost. -/

namespace Stencil

variable {σ ε : Type}

mutual

def Activity.registered : Activity → List Element
  | .offer _ => []
  | .register element => [element]
  | .flush visits => registeredIn visits
  | .visit _ inner _ => registeredIn inner

/-- Every element that was registered, in the order of registration. -/
def registeredIn : List Activity → List Element
  | [] => []
  | activity :: log => activity.registered ++ registeredIn log

end

theorem registeredIn_append (log more : List Activity) :
    registeredIn (log ++ more) = registeredIn log ++ registeredIn more := by
  induction log with
  | nil => rfl
  | cons activity log ih =>
    rw [List.cons_append, registeredIn, registeredIn, ih, List.append_assoc]

/-- Visits of all the elements in order, or of the first of them up to one that failed. -/
inductive Visited : List Element → List Activity → Prop
  | nil : Visited [] []
  | failed (e : Element) (es : List Element) (inner : List Activity) :
      Visited (e :: es) [.visit e inner true]
  | cons {es : List Element} {visits : List Activity} (e : Element) (inner : List Activity)
      (rest : Visited es visits) : Visited (e :: es) (.visit e inner false :: visits)

/-- Where `known` was registered since the innermost flush around began, every flush in the
log visits what is known at its start. Within a flush, what is known begins anew. -/
inductive Orderly : List Element → List Activity → Prop
  | nil (known : List Element) : Orderly known []
  | offer {known : List Element} {log : List Activity} (o : Offer) (rest : Orderly known log) :
      Orderly known (.offer o :: log)
  | register {known : List Element} {log : List Activity} (e : Element)
      (rest : Orderly (known ++ [e]) log) : Orderly known (.register e :: log)
  | flush {known : List Element} {visits log : List Activity} (visited : Visited known visits)
      (inside : Orderly [] visits) (rest : Orderly (known ++ registeredIn visits) log) :
      Orderly known (.flush visits :: log)
  | visit {known : List Element} {inner log : List Activity} (e : Element) (failed : Bool)
      (inside : Orderly known inner) (rest : Orderly (known ++ registeredIn inner) log) :
      Orderly known (.visit e inner failed :: log)

theorem Orderly.append {known : List Element} {log more : List Activity}
    (h : Orderly known log) (hmore : Orderly (known ++ registeredIn log) more) :
    Orderly known (log ++ more) := by
  induction h with
  | nil known => simpa [registeredIn] using hmore
  | offer o rest ih =>
    have hrest := ih (by simpa [registeredIn, Activity.registered] using hmore)
    exact .offer o hrest
  | register e rest ih =>
    have hrest := ih (by simpa [registeredIn, Activity.registered] using hmore)
    exact .register e hrest
  | flush visited inside rest _ ih =>
    have hrest := ih (by simpa [registeredIn, Activity.registered] using hmore)
    exact .flush visited inside hrest
  | visit e failed inside rest _ ih =>
    have hrest := ih (by simpa [registeredIn, Activity.registered] using hmore)
    exact .visit e failed inside hrest

theorem Performs.visited {out : Sink σ ε} {es : List Element} {w : Writer σ}
    {log : List Activity} {o : Outcome ε (Writer σ)} (h : Performs out (.visits es) w log o) :
    Visited es log := by
  induction es generalizing w log o with
  | nil =>
    cases h
    exact .nil
  | cons e es ih =>
    cases h with
    | andThen hfirst hrest =>
      have hvisited := ih hrest
      cases hfirst with
      | visit hinner => exact .cons e _ hvisited
    | cutShort _ hfirst =>
      cases hfirst with
      | visit hinner => exact .failed e es _

/-- The list grows by what is registered, and the flushes on the way are orderly. -/
structure Registers (w : Writer σ) (log : List Activity) (v : Writer σ) : Prop where
  elements : v.elements = w.elements ++ registeredIn log
  orderly : Orderly w.elements log

namespace Registers

variable {w v u : Writer σ} {log more : List Activity}

theorem still (h : v.elements = w.elements) : Registers w [] v :=
  ⟨by simp [registeredIn, h], .nil _⟩

theorem offer (o : Offer) (h : v.elements = w.elements) : Registers w [.offer o] v :=
  ⟨by simp [registeredIn, Activity.registered, h], .offer o (.nil _)⟩

theorem trans (h : Registers w log v) (h' : Registers v more u) :
    Registers w (log ++ more) u := by
  refine ⟨?_, h.orderly.append ?_⟩
  · rw [h'.elements, h.elements, registeredIn_append, List.append_assoc]
  · rw [← h.elements]
    exact h'.orderly

end Registers

theorem Performs.registers {out : Sink σ ε} {t : Task} {w : Writer σ} {log : List Activity}
    {o : Outcome ε (Writer σ)} (h : Performs out t w log o) : Registers w log o.state := by
  induction h with
  | adjust a w =>
    apply Registers.still
    cases a <;> rfl
  | accepted role h =>
    apply Registers.offer
    cases role <;> rfl
  | refused role h => exact .offer _ rfl
  | register e w => exact ⟨rfl, .register e (.nil _)⟩
  | @flush w log o h ih =>
    have hinner : o.state.elements = registeredIn log := ih.elements
    refine ⟨?_, .flush h.visited ih.orderly (.nil _)⟩
    rw [Outcome.state_map]
    simp [registeredIn, Activity.registered, hinner]
  | @visit e w log o h ih =>
    have helements := ih.elements
    refine ⟨?_, .visit e _ ih.orderly (.nil _)⟩
    simpa [registeredIn, Activity.registered] using helements
  | element h ih => exact ih
  | andThen ht hu iht ihu => exact iht.trans ihu
  | cutShort u ht iht => exact iht
  | scope h ih =>
    rw [Outcome.state_map]
    exact ⟨ih.elements, ih.orderly⟩
  | missing hc h ih => exact ih
  | present e hc => exact .still rfl
  | unharmed u ht iht => exact iht
  | rescued ht hu iht ihu => exact iht.trans ihu
  | inspect h ih => exact ih

theorem Session.registers {out : Sink σ ε} {steps : List Step} {w v : Writer σ}
    {log : List Activity} (h : Session out steps w log v) : Registers w log v := by
  induction h with
  | nil w => exact .still rfl
  | cons hfirst hrest ih => exact hfirst.registers.trans ih

/-- A session has one log, whatever the sink refuses. After it the writer has the elements
from before and then every element that was registered on the way, in order. Each flush
visits the elements that are registered when it starts, or inside of another flush those
registered since that one began, in order up to the first failure, and no others. -/
theorem transcript_registrations (out : Sink σ ε) (steps : List Step) (w : Writer σ) :
    ∃ log, (∀ l v, Session out steps w l v ↔ l = log ∧ v = sessionEnd out steps w) ∧
      (sessionEnd out steps w).elements = w.elements ++ registeredIn log ∧
      Orderly w.elements log := by
  obtain ⟨log, hlog⟩ := exists_session_iff out steps w
  have hsession : Session out steps w log (sessionEnd out steps w) := (hlog _ _).mpr ⟨rfl, rfl⟩
  exact ⟨log, hlog, hsession.registers.elements, hsession.registers.orderly⟩

end Stencil
