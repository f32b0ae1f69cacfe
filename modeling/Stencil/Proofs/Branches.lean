import Stencil.Code.Conditional
import Stencil.Emit

/-! Which branches a conditional has after a number of calls that attach branches to it. A
conditional that is attached brings its own further branches along, and these are kept unless
an `else` is there already. -/

namespace Stencil

/-- A call in the building of a conditional: another one attached to it, or the branch for all
other cases. -/
inductive Attachment where
  | elif (d : Conditional)
  | orElse (body : List Element)

/-- The branches with conditions that an attachment offers, in order. -/
def Attachment.branches : Attachment → List Branch
  | .elif d => d.first :: d.elifs
  | .orElse _ => []

def Attachment.otherwise : Attachment → Option (List Element)
  | .elif d => d.otherwise
  | .orElse body => some body

namespace Conditional

def attach (c : Conditional) : Attachment → Conditional
  | .elif d => c.elif d
  | .orElse body => c.orElse body

def attachAll (c : Conditional) (calls : List Attachment) : Conditional :=
  calls.foldl attach c

/-- No conditional with further branches is attached to one that has an `else` by then. -/
def KeepsAll (c : Conditional) (calls : List Attachment) : Prop :=
  ∀ before d after, calls = before ++ .elif d :: after →
    (c.attachAll before).otherwise = none ∨ d.elifs = []

theorem elifs_elif (c d : Conditional) :
    (c.elif d).elifs = c.elifs ++ d.first :: if c.otherwise.isSome then [] else d.elifs := by
  unfold elif
  cases c.otherwise <;> rfl

theorem otherwise_elif (c d : Conditional) :
    (c.elif d).otherwise = (c.otherwise <|> d.otherwise) := by
  unfold elif
  cases c.otherwise <;> rfl

theorem first_attach (c : Conditional) (call : Attachment) : (c.attach call).first = c.first := by
  cases call with
  | elif d =>
    simp only [attach, elif]
    cases c.otherwise <;> rfl
  | orElse body => rfl

theorem isSome_otherwise_attach (c : Conditional) (call : Attachment) :
    (c.attach call).otherwise.isSome = (c.otherwise.isSome || call.otherwise.isSome) := by
  cases call with
  | elif d =>
    rw [attach, otherwise_elif]
    cases c.otherwise <;> rfl
  | orElse body => simp [attach, orElse, Attachment.otherwise]

theorem elifs_attach_sublist (c : Conditional) (call : Attachment) :
    (c.attach call).elifs.Sublist (c.elifs ++ call.branches) := by
  cases call with
  | elif d =>
    rw [attach, elifs_elif]
    apply (List.Sublist.refl c.elifs).append
    apply List.Sublist.cons_cons
    split
    · exact List.nil_sublist _
    · exact List.Sublist.refl _
  | orElse body => simp [attach, orElse, Attachment.branches]

theorem elifs_elif_eq_iff (c d : Conditional) :
    (c.elif d).elifs = c.elifs ++ d.first :: d.elifs ↔ c.otherwise = none ∨ d.elifs = [] := by
  rw [elifs_elif]
  cases hc : c.otherwise with
  | none => simp
  | some body => simp [eq_comm]

theorem elifs_attach_eq_iff (c : Conditional) (call : Attachment) :
    (c.attach call).elifs = c.elifs ++ call.branches ↔
      ∀ d, call = .elif d → c.otherwise = none ∨ d.elifs = [] := by
  cases call with
  | elif d =>
    simp only [Attachment.elif.injEq, forall_eq']
    exact elifs_elif_eq_iff c d
  | orElse body => simp [attach, orElse, Attachment.branches]

theorem keepsAll_cons (c : Conditional) (call : Attachment) (calls : List Attachment) :
    c.KeepsAll (call :: calls) ↔
      (∀ d, call = .elif d → c.otherwise = none ∨ d.elifs = []) ∧
        (c.attach call).KeepsAll calls := by
  constructor
  · intro h
    refine ⟨fun d hd => h [] d calls (by rw [hd]; rfl), fun before d after he => ?_⟩
    exact h (call :: before) d after (by rw [he]; rfl)
  · rintro ⟨hcall, hcalls⟩ before d after he
    cases before with
    | nil =>
      obtain ⟨hd, -⟩ := List.cons.inj he
      exact hcall d hd
    | cons first before =>
      obtain ⟨rfl, hrest⟩ := List.cons.inj he
      exact hcalls before d after hrest

theorem first_attachAll (c : Conditional) (calls : List Attachment) :
    (c.attachAll calls).first = c.first := by
  induction calls generalizing c with
  | nil => rfl
  | cons call calls ih => exact (ih (c.attach call)).trans (c.first_attach call)

theorem isSome_otherwise_attachAll (c : Conditional) (calls : List Attachment) :
    (c.attachAll calls).otherwise.isSome =
      (c.otherwise.isSome || calls.any fun call => call.otherwise.isSome) := by
  induction calls generalizing c with
  | nil => simp [attachAll]
  | cons call calls ih =>
    have hrest := ih (c.attach call)
    rw [isSome_otherwise_attach, Bool.or_assoc] at hrest
    exact hrest

theorem elifs_attachAll_sublist (c : Conditional) (calls : List Attachment) :
    (c.attachAll calls).elifs.Sublist (c.elifs ++ calls.flatMap Attachment.branches) := by
  induction calls generalizing c with
  | nil => simp [attachAll]
  | cons call calls ih =>
    have hcall := (elifs_attach_sublist c call).append
      (List.Sublist.refl (calls.flatMap Attachment.branches))
    rw [List.append_assoc] at hcall
    exact (ih (c.attach call)).trans hcall

theorem elifs_attachAll_eq_iff (c : Conditional) (calls : List Attachment) :
    (c.attachAll calls).elifs = c.elifs ++ calls.flatMap Attachment.branches ↔
      c.KeepsAll calls := by
  induction calls generalizing c with
  | nil => simp [attachAll, KeepsAll]
  | cons call calls ih =>
    have hstep : c.attachAll (call :: calls) = (c.attach call).attachAll calls := rfl
    rw [keepsAll_cons, ← elifs_attach_eq_iff, ← ih, hstep, List.flatMap_cons]
    constructor
    · intro he
      -- a branch that the first call loses does not come back, so it would be missed at the end
      have hcall := elifs_attach_sublist c call
      have hcalls := (elifs_attachAll_sublist (c.attach call) calls).length_le
      have hlength : (c.elifs ++ call.branches).length ≤ (c.attach call).elifs.length := by
        rw [he] at hcalls
        simp only [List.length_append] at hcalls ⊢
        omega
      have hkept := hcall.eq_of_length_le hlength
      refine ⟨hkept, ?_⟩
      rw [he, hkept, List.append_assoc]
    · rintro ⟨hcall, hcalls⟩
      rw [hcalls, hcall, List.append_assoc]

/-- Whatever is attached in whatever order, the branches in the end are among those that were there
and those that were offered, in order, and each comes at most once. None is missing exactly if no
conditional with further branches was attached behind an `else`. There is an `else` in the end
if there was one or one was offered, and the branches are written one after the other. -/
theorem branches_kept_iff (c : Conditional) (calls : List Attachment) (keyword : String) :
    (∀ d : Conditional,
      ((c.elif d).elifs = c.elifs ++ d.first :: d.elifs ↔ c.otherwise = none ∨ d.elifs = []) ∧
      (c.elif d).otherwise = (c.otherwise <|> d.otherwise)) ∧
    ((c.attachAll calls).elifs = c.elifs ++ calls.flatMap Attachment.branches ↔
      c.KeepsAll calls) ∧
    (c.attachAll calls).elifs.Sublist (c.elifs ++ calls.flatMap Attachment.branches) ∧
    (c.attachAll calls).otherwise.isSome =
      (c.otherwise.isSome || calls.any fun call => call.otherwise.isSome) ∧
    ∀ (σ ε : Type) (out : Sink σ ε) (flush : Writer σ → Outcome ε (Writer σ)) (w : Writer σ),
      ((c.attachAll calls).elementAs keyword).run out flush w =
        Element.runAll out flush
          (c.first.element keyword :: (c.attachAll calls).elifs.map (Branch.element "elif")
            ++ ((c.attachAll calls).otherwise.map otherwiseElement).toList) w := by
  refine ⟨fun d => ⟨c.elifs_elif_eq_iff d, c.otherwise_elif d⟩, c.elifs_attachAll_eq_iff calls,
    c.elifs_attachAll_sublist calls, c.isSome_otherwise_attachAll calls, ?_⟩
  intro σ ε out flush w
  rw [elementAs, first_attachAll]
  rfl

/-- Attached behind an `else`, the second of two chained branches is lost. -/
theorem elif_behind_else_loses_branch :
    let c : Conditional := { first := { condition := .text "a" }, otherwise := some [] }
    let d : Conditional :=
      { first := { condition := .text "b" }, elifs := [{ condition := .text "c" }] }
    (c.elif d).elifs ≠ c.elifs ++ d.first :: d.elifs ∧
      (c.elif d).element.render .plain =
        "if a:\n    pass\nelif b:\n    pass\nelse:\n    pass\n" := by
  intro c d
  refine ⟨fun he => ?_, by decide +kernel⟩
  have hlength := congrArg List.length he
  exact absurd hlength (by decide)

end Conditional

end Stencil
