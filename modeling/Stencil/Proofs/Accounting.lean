import Stencil.Proofs.Rules
import Stencil.Sink.Bounded

/-! The bytes that a writer counts. Every text before the sink is one of three kinds, and the
count goes up by those texts and line ends that the sink accepts. Indentation is accepted
without being counted, so what the sink holds exceeds the count by the accepted units. The
counter that the writer shows has 64 bits, and is the count until it is full. -/

namespace Stencil

variable {σ ε : Type}

mutual

def Activity.offers : Activity → List Offer
  | .offer o => [o]
  | .register _ => []
  | .flush visits => offersIn visits
  | .visit _ inner _ => offersIn inner

/-- Every text that was offered, in order. -/
def offersIn : List Activity → List Offer
  | [] => []
  | activity :: log => activity.offers ++ offersIn log

end

theorem offersIn_append (log more : List Activity) :
    offersIn (log ++ more) = offersIn log ++ offersIn more := by
  induction log with
  | nil => rfl
  | cons activity log ih => rw [List.cons_append, offersIn, offersIn, ih, List.append_assoc]

namespace Offer

def isIndentation (o : Offer) : Bool :=
  o.role = .indentation

/-- A text or a line end that the sink has accepted. -/
def isCounted (o : Offer) : Bool :=
  o.accepted && !o.isIndentation

/-- The bytes of those offers that `p` selects. -/
def size (p : Offer → Bool) : List Offer → Nat
  | [] => 0
  | o :: os => (if p o then o.text.utf8ByteSize else 0) + size p os

theorem size_append (p : Offer → Bool) (os rest : List Offer) :
    size p (os ++ rest) = size p os + size p rest := by
  induction os with
  | nil => simp [size]
  | cons o os ih =>
    simp only [List.cons_append, size, ih]
    omega

theorem size_cons (p : Offer → Bool) (o : Offer) (os : List Offer) :
    size p (o :: os) = size p [o] + size p os :=
  size_append p [o] os

end Offer

/-- The sink answers the offers one after the other, whether it accepts them or not. -/
inductive Answers (out : Sink σ ε) : σ → List Offer → σ → Prop
  | nil (target : σ) : Answers out target [] target
  | cons {target last : σ} {o : Offer} {os : List Offer}
      (hanswer : (out.append o.text target).isFailed = !o.accepted)
      (hrest : Answers out (out.append o.text target).state os last) :
      Answers out target (o :: os) last

theorem Answers.append {out : Sink σ ε} {target middle last : σ} {os rest : List Offer}
    (h : Answers out target os middle) (h' : Answers out middle rest last) :
    Answers out target (os ++ rest) last := by
  induction h with
  | nil target => exact h'
  | cons hanswer _ ih => exact .cons hanswer (ih h')

/-- Where `count` bytes were counted before, each offer comes with the counter after it. -/
def Tallied : Nat → List Offer → Prop
  | _, [] => True
  | count, o :: os =>
    o.written = UInt64.ofNat (count + Offer.size Offer.isCounted [o]) ∧
      Tallied (count + Offer.size Offer.isCounted [o]) os

theorem Tallied.append {count : Nat} {os rest : List Offer} (h : Tallied count os)
    (h' : Tallied (count + Offer.size Offer.isCounted os) rest) : Tallied count (os ++ rest) := by
  induction os generalizing count with
  | nil => simpa [Offer.size] using h'
  | cons o os ih =>
    refine ⟨h.1, ih h.2 ?_⟩
    rw [Nat.add_assoc, ← Offer.size_cons]
    exact h'

/-- What happens between two states of a writer is on the books. -/
structure Accounts (out : Sink σ ε) (w : Writer σ) (log : List Activity) (v : Writer σ) :
    Prop where
  unit : v.unit = w.unit
  written : v.written = w.written + Offer.size Offer.isCounted (offersIn log)
  tallied : Tallied w.written (offersIn log)
  answers : Answers out w.target (offersIn log) v.target

namespace Accounts

variable {out : Sink σ ε} {w v u : Writer σ} {log more : List Activity}

theorem still (hunit : v.unit = w.unit) (hwritten : v.written = w.written)
    (htarget : v.target = w.target) : Accounts out w [] v := by
  refine ⟨hunit, hwritten, trivial, ?_⟩
  rw [htarget]
  exact .nil _

theorem trans (h : Accounts out w log v) (h' : Accounts out v more u) :
    Accounts out w (log ++ more) u := by
  have hwritten := h.written
  have hwritten' := h'.written
  have htallied := h'.tallied
  rw [hwritten] at htallied
  refine ⟨h'.unit.trans h.unit, ?_, ?_, ?_⟩
  · rw [offersIn_append, Offer.size_append]
    omega
  · rw [offersIn_append]
    exact h.tallied.append htallied
  · rw [offersIn_append]
    exact h.answers.append h'.answers

theorem accepted {s : String} {target : σ} (role : Role)
    (h : out.append s w.target = .done target) :
    Accounts out w [.offer ⟨role, s, true, (w.accept role s target).bytesWritten⟩]
      (w.accept role s target) := by
  have hanswers : Answers out w.target
      [⟨role, s, true, (w.accept role s target).bytesWritten⟩] target := by
    refine .cons (by simp [h, Outcome.isFailed, Outcome.error?]) ?_
    rw [h]
    exact .nil _
  cases role <;> exact ⟨rfl, rfl, ⟨rfl, trivial⟩, hanswers⟩

theorem refused {s : String} {error : ε} {target : σ} (role : Role)
    (h : out.append s w.target = .failed error target) :
    Accounts out w [.offer ⟨role, s, false, w.bytesWritten⟩] { w with target := target } := by
  refine ⟨rfl, rfl, ⟨rfl, trivial⟩, .cons (by simp [h, Outcome.isFailed, Outcome.error?]) ?_⟩
  rw [h]
  exact .nil _

/-- A flush and a visit offer what happens inside of them. -/
theorem inside {activity : Activity} (h : Accounts out w log v)
    (hoffers : activity.offers = offersIn log) : Accounts out w [activity] v := by
  have hlog : offersIn [activity] = offersIn log := by
    rw [offersIn, offersIn, List.append_nil, hoffers]
  exact ⟨h.unit, hlog ▸ h.written, hlog ▸ h.tallied, hlog ▸ h.answers⟩

end Accounts

theorem Performs.accounts {out : Sink σ ε} {t : Task} {w : Writer σ} {log : List Activity}
    {o : Outcome ε (Writer σ)} (h : Performs out t w log o) : Accounts out w log o.state := by
  induction h with
  | adjust a w => cases a <;> exact .still rfl rfl rfl
  | accepted role h => exact .accepted role h
  | refused role h => exact .refused role h
  | register e w => exact ⟨rfl, rfl, trivial, .nil _⟩
  | flush h ih =>
    rw [Outcome.state_map]
    have hinner := ih.inside (show (Activity.flush _).offers = _ from rfl)
    exact ⟨hinner.unit, hinner.written, hinner.tallied, hinner.answers⟩
  | visit h ih => exact ih.inside rfl
  | element h ih => exact ih
  | andThen ht hu iht ihu => exact iht.trans ihu
  | cutShort u ht iht => exact iht
  | scope h ih =>
    rw [Outcome.state_map]
    exact ⟨ih.unit, ih.written, ih.tallied, ih.answers⟩
  | missing hc h ih => exact ih
  | present e hc => exact .still rfl rfl rfl
  | unharmed u ht iht => exact iht
  | rescued ht hu iht ihu => exact iht.trans ihu
  | inspect h ih => exact ih

/-- Whether bytes were counted in the course of a task, as for the placeholder of a body, can be
told from the counter too, unless the task fills it. -/
theorem Performs.bytesWritten_eq_iff {out : Sink σ ε} {t : Task} {w : Writer σ}
    {log : List Activity} {o : Outcome ε (Writer σ)} (h : Performs out t w log o)
    (hfit : Offer.size Offer.isCounted (offersIn log) < UInt64.size) :
    o.state.bytesWritten = w.bytesWritten ↔ o.state.written = w.written := by
  have hwritten := h.accounts.written
  rw [UInt64.size] at hfit
  rw [Writer.bytesWritten, Writer.bytesWritten, ← UInt64.toNat_inj, UInt64.toNat_ofNat',
    UInt64.toNat_ofNat']
  omega

/-- The task itself indents with nothing but the unit. -/
def Task.IndentsBy (unit : String) : Task → Prop
  | .offer .indentation s => s = unit
  | .andThen t u | .rescue t u => t.IndentsBy unit ∧ u.IndentsBy unit
  | .scope t => t.IndentsBy unit
  | .inspect choose => ∀ view, (choose view).IndentsBy unit
  | _ => True

theorem Task.indentsBy_all (unit : String) (es : List Element) : (all es).IndentsBy unit := by
  induction es with
  | nil => trivial
  | cons e es ih => exact ⟨trivial, ih⟩

theorem Task.indentsBy_padding (unit : String) (levels : Nat) :
    (padding unit levels).IndentsBy unit := by
  induction levels with
  | zero => trivial
  | succ levels ih => exact ⟨rfl, ih⟩

theorem Element.indentsBy_task (w : Writer σ) (e : Element) : (e.task w).IndentsBy w.unit := by
  cases e with
  | text s =>
    simp only [Element.task]
    split
    · trivial
    · split
      · exact ⟨⟨Task.indentsBy_padding w.unit w.depth, trivial⟩, trivial⟩
      · trivial
  | freshLine =>
    simp only [Element.task]
    split <;> trivial
  | seq parts => exact Task.indentsBy_all w.unit parts
  | indented parts => exact Task.indentsBy_all w.unit parts
  | body children placeholder => exact ⟨⟨Task.indentsBy_all w.unit children, trivial⟩, trivial⟩
  | _ => trivial

/-- Every indentation on offer is one unit. -/
def IndentedBy (unit : String) (os : List Offer) : Prop :=
  ∀ o ∈ os, o.isIndentation = true → o.text = unit

theorem IndentedBy.append {unit : String} {os rest : List Offer} (h : IndentedBy unit os)
    (h' : IndentedBy unit rest) : IndentedBy unit (os ++ rest) := by
  intro o ho
  rcases List.mem_append.mp ho with hleft | hright
  · exact h o hleft
  · exact h' o hright

/-- What a second task indents, it indents by the unit of the first. -/
theorem IndentedBy.trans {w v : Writer σ} {log more : List Activity}
    (h : IndentedBy w.unit (offersIn log)) (hunit : v.unit = w.unit)
    (h' : IndentedBy v.unit (offersIn more)) : IndentedBy w.unit (offersIn (log ++ more)) := by
  rw [hunit] at h'
  rw [offersIn_append]
  exact h.append h'

mutual

theorem Step.indentsBy_task (unit : String) : (step : Step) → step.task.IndentsBy unit
  | .write _ => trivial
  | .scope inner => Step.indentsBy_tasks unit inner
  | .attempt inner rescue => ⟨Step.indentsBy_tasks unit inner, Step.indentsBy_tasks unit rescue⟩
  | .inspect choose => fun view => Step.indentsBy_task unit (choose view)

theorem Step.indentsBy_tasks (unit : String) :
    (steps : List Step) → (Step.tasks steps).IndentsBy unit
  | [] => trivial
  | step :: steps => ⟨Step.indentsBy_task unit step, Step.indentsBy_tasks unit steps⟩

end

theorem Session.accounts {out : Sink σ ε} {steps : List Step} {w v : Writer σ}
    {log : List Activity} (h : Session out steps w log v) : Accounts out w log v := by
  induction h with
  | nil w => exact .still rfl rfl rfl
  | cons hfirst hrest ih => exact hfirst.accounts.trans ih

def Writer.fresh (unit terminator : String) (target : σ) : Writer σ where
  unit := unit
  terminator := terminator
  target := target

end Stencil
