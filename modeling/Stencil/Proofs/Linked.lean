import Stencil.Proofs.Bodies
import Stencil.Proofs.Branches

/-! Conditionals as chains of links. Each branch holds what follows it, and to attach a branch is
to walk along the chain to its end. A conditional with a list of branches is such a chain laid
flat: the two determine each other, attaching does the same to both, and both are written alike. -/

namespace Stencil

/-- What follows a branch: nothing, another branch with what follows that one in turn, or the
branch for all other cases. -/
inductive Chain where
  | ended
  | elif (branch : Branch) (next : Chain)
  | otherwise (body : List Element)

section Writing

variable {σ ε : Type} {out : Sink σ ε} {flush : Writer σ → Outcome ε (Writer σ)}

theorem Element.emit_congr {e f : Element} (hrank : e.rank = f.rank)
    (hrun : ∀ (flush : Writer σ → Outcome ε (Writer σ)) (w : Writer σ),
      e.run out flush w = f.run out flush w) (w : Writer σ) : e.emit out w = f.emit out w := by
  rw [Element.emit, Element.emit, hrank]
  cases max f.rank (Element.registeredRank w.elements) with
  | zero => exact hrun .done w
  | succ level => exact hrun (Writer.flushWith (emitAt out level)) w

/-- A branch as a block writes the branch, and then what its footer writes. -/
theorem Branch.run_block (keyword : String) (b : Branch) (footer : Element) (w : Writer σ) :
    (Element.block (b.header keyword) b.body .pass footer).run out flush w =
      ((b.element keyword).run out flush w).andThen (footer.run out flush) := by
  have hbranch : (b.element keyword).run out flush w =
      ((b.header keyword).run out flush w).andThen
        (Element.runAll out flush [.body b.body .pass]) :=
    Element.runAll_append [_, _, _, _, _] _ w
  have hblock : (Element.block (b.header keyword) b.body .pass footer).run out flush w =
      ((b.header keyword).run out flush w).andThen
        (Element.runAll out flush ([.body b.body .pass] ++ [footer])) := rfl
  rw [hblock, hbranch, Outcome.andThen_assoc]
  congr 1
  funext v
  rw [Element.runAll_append]
  congr 1
  funext u
  exact Element.runAll_singleton footer u

theorem Branch.rank_block (keyword : String) (b : Branch) (footer : Element) :
    (Element.block (b.header keyword) b.body .pass footer).rank =
      max (b.element keyword).rank footer.rank := by
  simp only [Element.block, Branch.header, Branch.element, Element.rank, Element.rank.rankAll,
    Nat.zero_max, Nat.max_zero, Nat.max_assoc]

end Writing

namespace Chain

/-- Walks along the chain and attaches an alternative at its end. An `else` stays last: a branch
with a condition is put before it, where the `else` takes the place of what followed the branch,
and another `else` replaces it. -/
def attach : Chain → Chain → Chain
  | .elif branch next, a => .elif branch (next.attach a)
  | .otherwise body, .elif branch _ => .elif branch (.otherwise body)
  | .otherwise _, .otherwise last => .otherwise last
  | .otherwise body, .ended => .otherwise body
  | .ended, a => a

def elifs : Chain → List Branch
  | .ended => []
  | .elif branch next => branch :: next.elifs
  | .otherwise _ => []

def final : Chain → Option (List Element)
  | .ended => none
  | .elif _ next => next.final
  | .otherwise body => some body

def ofBranches (final : Option (List Element)) : List Branch → Chain
  | [] => (final.map .otherwise).getD .ended
  | branch :: branches => .elif branch (ofBranches final branches)

/-- Each branch is the footer of the one before. -/
def footer : Chain → Element
  | .ended => .empty
  | .elif branch next => .block (branch.header "elif") branch.body .pass next.footer
  | .otherwise body => .block (.line "else:") body .pass .empty

theorem elifs_ofBranches (last : Option (List Element)) (branches : List Branch) :
    (ofBranches last branches).elifs = branches := by
  induction branches with
  | nil => cases last <;> rfl
  | cons branch branches ih => rw [ofBranches, elifs, ih]

theorem final_ofBranches (last : Option (List Element)) (branches : List Branch) :
    (ofBranches last branches).final = last := by
  induction branches with
  | nil => cases last <;> rfl
  | cons branch branches ih => rw [ofBranches, final, ih]

theorem ofBranches_elifs (chain : Chain) : ofBranches chain.final chain.elifs = chain := by
  induction chain with
  | ended => rfl
  | elif branch next ih => rw [final, elifs, ofBranches, ih]
  | otherwise body => rfl

/-- What follows the branch that is attached is kept only if the walk ends without an `else`. -/
theorem elifs_attach_elif (chain : Chain) (branch : Branch) (next : Chain) :
    (chain.attach (.elif branch next)).elifs =
      chain.elifs ++ branch :: if chain.final.isSome then [] else next.elifs := by
  induction chain with
  | ended => rfl
  | elif b rest ih =>
    rw [attach, elifs, ih]
    rfl
  | otherwise body => rfl

theorem final_attach_elif (chain : Chain) (branch : Branch) (next : Chain) :
    (chain.attach (.elif branch next)).final = (chain.final <|> next.final) := by
  induction chain with
  | ended => rfl
  | elif b rest ih => exact ih
  | otherwise body => rfl

theorem elifs_attach_otherwise (chain : Chain) (body : List Element) :
    (chain.attach (.otherwise body)).elifs = chain.elifs := by
  induction chain with
  | ended => rfl
  | elif b rest ih => rw [attach, elifs, ih, elifs]
  | otherwise last => rfl

theorem final_attach_otherwise (chain : Chain) (body : List Element) :
    (chain.attach (.otherwise body)).final = some body := by
  induction chain with
  | ended => rfl
  | elif b rest ih => exact ih
  | otherwise last => rfl

variable {σ ε : Type} {out : Sink σ ε} {flush : Writer σ → Outcome ε (Writer σ)}

/-- The footers, one inside the other, write the branches one after the other. -/
theorem run_footer (chain : Chain) :
    chain.footer.run out flush =
      Element.runAll out flush (chain.elifs.map (Branch.element "elif")
        ++ (chain.final.map otherwiseElement).toList) := by
  induction chain with
  | ended => rfl
  | elif branch next ih =>
    funext w
    rw [footer, Branch.run_block, ih]
    rfl
  | otherwise body =>
    funext w
    rw [elifs, final, Option.map_some, List.map_nil, List.nil_append, Option.toList_some,
      Element.runAll_singleton]
    rfl

theorem rank_footer (chain : Chain) :
    chain.footer.rank = Element.rank.rankAll (chain.elifs.map (Branch.element "elif")
      ++ (chain.final.map otherwiseElement).toList) := by
  induction chain with
  | ended => rfl
  | elif branch next ih =>
    rw [footer, Branch.rank_block, ih]
    rfl
  | otherwise body =>
    simp [footer, elifs, final, otherwiseElement, Element.block, Element.rank,
      Element.rank.rankAll, Element.empty]

end Chain

/-- A branch and the chain behind it. -/
structure Link where
  first : Branch
  next : Chain := .ended

namespace Link

def child (l : Link) (e : Element) : Link :=
  { l with first := { l.first with body := l.first.body ++ [e] } }

def elif (l m : Link) : Link :=
  { l with next := l.next.attach (.elif m.first m.next) }

def orElse (l : Link) (body : List Element) : Link :=
  { l with next := l.next.attach (.otherwise body) }

def elementAs (keyword : String) (l : Link) : Element :=
  .block (l.first.header keyword) l.first.body .pass l.next.footer

/-- The conditional with the branches of the chain in a list. -/
def flat (l : Link) : Conditional where
  first := l.first
  elifs := l.next.elifs
  otherwise := l.next.final

end Link

def Conditional.linked (c : Conditional) : Link where
  first := c.first
  next := .ofBranches c.otherwise c.elifs

namespace Link

theorem flat_linked (c : Conditional) : c.linked.flat = c := by
  rw [Conditional.linked, flat, Chain.elifs_ofBranches, Chain.final_ofBranches]

theorem linked_flat (l : Link) : l.flat.linked = l := by
  rw [Conditional.linked, flat, Chain.ofBranches_elifs]

theorem flat_child (l : Link) (e : Element) : (l.child e).flat = l.flat.child e :=
  rfl

theorem flat_elif (l m : Link) : (l.elif m).flat = l.flat.elif m.flat := by
  rw [elif, flat, Chain.elifs_attach_elif, Chain.final_attach_elif]
  unfold Conditional.elif
  cases hfinal : l.next.final <;> simp [flat, hfinal]

theorem flat_orElse (l : Link) (body : List Element) :
    (l.orElse body).flat = l.flat.orElse body := by
  rw [orElse, flat, Chain.elifs_attach_otherwise, Chain.final_attach_otherwise]
  rfl

def attach (l : Link) : Attachment → Link
  | .elif d => l.elif d.linked
  | .orElse body => l.orElse body

theorem flat_attach (l : Link) (call : Attachment) :
    (l.attach call).flat = l.flat.attach call := by
  cases call with
  | elif d => rw [attach, flat_elif, flat_linked, Conditional.attach]
  | orElse body => exact l.flat_orElse body

theorem flat_attachAll (l : Link) (calls : List Attachment) :
    (calls.foldl attach l).flat = l.flat.attachAll calls := by
  induction calls generalizing l with
  | nil => rfl
  | cons call calls ih =>
    have hrest := ih (l.attach call)
    rw [flat_attach] at hrest
    exact hrest

variable {σ ε : Type}

theorem run_elementAs {out : Sink σ ε} {flush : Writer σ → Outcome ε (Writer σ)} (l : Link)
    (keyword : String) (w : Writer σ) :
    (l.elementAs keyword).run out flush w = (l.flat.elementAs keyword).run out flush w := by
  rw [elementAs, Branch.run_block, Chain.run_footer]
  rfl

theorem rank_elementAs (l : Link) (keyword : String) :
    (l.elementAs keyword).rank = (l.flat.elementAs keyword).rank := by
  rw [elementAs, Branch.rank_block, Chain.rank_footer]
  rfl

/-- Whatever is attached to a chain and in whatever order, it is written as the conditional that
has its branches in a list and was given the same. -/
theorem emit_attachAll (l : Link) (calls : List Attachment) (keyword : String) (out : Sink σ ε)
    (w : Writer σ) :
    ((calls.foldl attach l).elementAs keyword).emit out w =
      ((l.flat.attachAll calls).elementAs keyword).emit out w := by
  rw [← flat_attachAll]
  exact Element.emit_congr (rank_elementAs _ keyword) (fun flush v => run_elementAs _ keyword v) w

end Link

end Stencil
