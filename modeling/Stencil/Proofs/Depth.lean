import Stencil.Proofs.Built
import Stencil.Sink.Bounded

/-! The depth after an emission. A scope adds one level, at most up to the largest depth, and
takes one away again, so near the largest depth a scope ends lower than it began. What is
lost is governed by how deep scopes nest, and by nothing that the sink does. -/

namespace Stencil

variable {σ ε : Type}

namespace Writer

variable {α : Type} {f : Writer σ → α} {act next : Writer σ → Outcome ε (Writer σ)}

/-- The action leaves a part of the writer as it was, also when it fails. -/
def Keeps (f : Writer σ → α) (act : Writer σ → Outcome ε (Writer σ)) : Prop :=
  ∀ w, f (act w).state = f w

theorem Keeps.andThen (ha : Keeps f act) (hn : Keeps f next) :
    Keeps f fun w => (act w).andThen next := by
  intro w
  have h := ha w
  show f ((act w).andThen next).state = f w
  generalize act w = o at h ⊢
  cases o with
  | done v => exact (hn v).trans h
  | failed error v => exact h

/-- A part of the writer that neither text nor line ends touch. -/
def Settled (f : Writer σ → α) : Prop :=
  ∀ (w : Writer σ) (target : σ) (written : Nat) (atLineStart : Bool),
    f { w with target := target, written := written, atLineStart := atLineStart } = f w

theorem keeps_offer (hf : Settled f) (out : Sink σ ε) (s : String) :
    Keeps f (Writer.offer out s) := by
  intro w
  simp only [Writer.offer, Outcome.state_map]
  exact hf w _ _ _

theorem keeps_offerCounted (hf : Settled f) (out : Sink σ ε) (s : String) :
    Keeps f (Writer.offerCounted out s) :=
  (keeps_offer hf out s).andThen fun v => hf v _ _ _

theorem keeps_pad (hf : Settled f) (out : Sink σ ε) (levels : Nat) :
    Keeps f (Writer.pad out levels) := by
  induction levels with
  | zero => exact fun _ => rfl
  | succ levels ih => exact fun w => (keeps_offer hf out w.unit).andThen ih w

theorem keeps_atLineStart (hf : Settled f) (b : Bool) :
    Keeps f fun v => (.done { v with atLineStart := b } : Outcome ε (Writer σ)) :=
  fun v => hf v _ _ _

theorem keeps_openLine (hf : Settled f) (out : Sink σ ε) : Keeps f (Writer.openLine out) := by
  intro w
  unfold Writer.openLine
  split
  · exact (keeps_pad hf out w.depth).andThen (keeps_atLineStart hf false) w
  · rfl

theorem keeps_write (hf : Settled f) (out : Sink σ ε) (s : String) :
    Keeps f (Writer.write out s) := by
  intro w
  unfold Writer.write
  split
  · rfl
  · exact (keeps_openLine hf out).andThen (keeps_offerCounted hf out s) w

theorem keeps_lineFeed (hf : Settled f) (out : Sink σ ε) : Keeps f (Writer.lineFeed out) :=
  fun w => (keeps_offerCounted hf out w.terminator).andThen (keeps_atLineStart hf true) w

theorem keeps_freshLine (hf : Settled f) (out : Sink σ ε) : Keeps f (Writer.freshLine out) := by
  intro w
  unfold Writer.freshLine
  split
  · rfl
  · exact keeps_lineFeed hf out w

theorem settled_depth : Settled (Writer.depth : Writer σ → Nat) :=
  fun _ _ _ _ => rfl

end Writer

/-- The depth after an action that began at `depth` and nests `height` scopes: a fixed one
when it is done, and one between that and the first when it failed on the way. -/
def DepthAfter (height depth : Nat) : Outcome ε (Writer σ) → Prop
  | .done v => v.depth = min depth (maxDepth - height)
  | .failed _ v => min depth (maxDepth - height) ≤ v.depth ∧ v.depth ≤ depth

theorem depthAfter_zero {depth : Nat} {o : Outcome ε (Writer σ)} (hd : depth ≤ maxDepth)
    (ho : o.state.depth = depth) : DepthAfter 0 depth o := by
  cases o with
  | done v =>
    simp only [Outcome.state] at ho
    simp only [DepthAfter]
    omega
  | failed error v =>
    simp only [Outcome.state] at ho
    simp only [DepthAfter]
    omega

theorem DepthAfter.andThen {m n depth : Nat} {o : Outcome ε (Writer σ)}
    {next : Writer σ → Outcome ε (Writer σ)} (ho : DepthAfter m depth o)
    (hn : ∀ v, o = .done v → DepthAfter n v.depth (next v)) :
    DepthAfter (max m n) depth (o.andThen next) := by
  cases o with
  | done v =>
    have hv := hn v rfl
    simp only [DepthAfter] at ho
    simp only [Outcome.andThen_done]
    generalize next v = p at hv ⊢
    cases p with
    | done u =>
      simp only [DepthAfter] at hv ⊢
      omega
    | failed error u =>
      simp only [DepthAfter] at hv ⊢
      omega
  | failed error v =>
    simp only [DepthAfter, Outcome.andThen_failed] at ho ⊢
    omega

theorem DepthAfter.dedent {height depth : Nat} {o : Outcome ε (Writer σ)}
    (hd : depth ≤ maxDepth) (ho : DepthAfter height (min (depth + 1) maxDepth) o) :
    DepthAfter (height + 1) depth (o.map (·.dedent 1)) := by
  cases o with
  | done v =>
    simp only [DepthAfter, Outcome.map_done, Writer.dedent] at ho ⊢
    omega
  | failed error v =>
    simp only [DepthAfter, Outcome.map_failed, Writer.dedent] at ho ⊢
    omega

theorem DepthAfter.done_le {height depth : Nat} {o : Outcome ε (Writer σ)} {v : Writer σ}
    (ho : DepthAfter height depth o) (h : o = .done v) : v.depth ≤ depth := by
  subst h
  simp only [DepthAfter] at ho
  omega

section Run

variable {out : Sink σ ε} {flush : Writer σ → Outcome ε (Writer σ)}

theorem depthAfter_runAll {es : List Element}
    (h : ∀ e ∈ es, ∀ w : Writer σ, w.depth ≤ maxDepth →
      DepthAfter e.height w.depth (e.run out flush w))
    (w : Writer σ) (hd : w.depth ≤ maxDepth) :
    DepthAfter (Element.heightAll es) w.depth (Element.runAll out flush es w) := by
  induction es generalizing w with
  | nil => exact depthAfter_zero hd rfl
  | cons e es ih =>
    have he := h e (by simp) w hd
    apply he.andThen
    intro v hv
    have hle := he.done_le hv
    exact ih (fun a ha => h a (by simp [ha])) v (by omega)

theorem depthAfter_body {children : List Element} (n : Nat) (w : Writer σ)
    (hd : w.depth ≤ maxDepth)
    (h : DepthAfter (Element.heightAll children) (w.indent 1).depth
      (Element.runAll out flush children (w.indent 1))) :
    DepthAfter (Element.heightAll children + 1) w.depth
      ((((Element.runAll out flush children (w.indent 1)).andThen fun v =>
          if v.written = n then Element.pass.run out flush v else .done v).map
        (·.dedent 1)).andThen (·.freshLine out)) := by
  have hmax : (w.indent 1).depth ≤ maxDepth := Nat.min_le_right _ _
  have hpass : Writer.Keeps Writer.depth (Element.pass.run out flush) :=
    (Writer.keeps_write Writer.settled_depth out "pass").andThen
      ((Writer.keeps_lineFeed Writer.settled_depth out).andThen fun _ => rfl)
  -- the placeholder has no scope of its own, so it does not matter whether it is written
  have hchoice : ∀ v, Element.runAll out flush children (w.indent 1) = .done v →
      DepthAfter 0 v.depth (if v.written = n then Element.pass.run out flush v else .done v) := by
    intro v hv
    have hle := h.done_le hv
    apply depthAfter_zero (by omega)
    split
    · exact hpass v
    · rfl
  have hinner := h.andThen hchoice
  rw [Nat.max_zero] at hinner
  have hscope := hinner.dedent hd
  have hall := hscope.andThen fun v hv =>
    depthAfter_zero (Nat.le_trans (hscope.done_le hv) hd)
      (Writer.keeps_freshLine Writer.settled_depth out v)
  rwa [Nat.max_zero] at hall

theorem Element.Plain.depthAfter_run {e : Element} (h : e.Plain) (w : Writer σ)
    (hd : w.depth ≤ maxDepth) : DepthAfter e.height w.depth (e.run out flush w) := by
  induction h generalizing w with
  | text s => exact depthAfter_zero hd (Writer.keeps_write Writer.settled_depth out s w)
  | lineFeed => exact depthAfter_zero hd (Writer.keeps_lineFeed Writer.settled_depth out w)
  | freshLine => exact depthAfter_zero hd (Writer.keeps_freshLine Writer.settled_depth out w)
  | seq _ ih => exact depthAfter_runAll ih w hd
  | indented _ ih =>
    exact (depthAfter_runAll ih (w.indent 1) (Nat.min_le_right _ _)).dedent hd
  | body _ ih =>
    rw [height_body_pass]
    exact depthAfter_body w.written w hd (depthAfter_runAll ih (w.indent 1) (Nat.min_le_right _ _))

theorem Element.Plain.depthAfter_emit {e : Element} (h : e.Plain) (w : Writer σ)
    (hd : w.depth ≤ maxDepth) : DepthAfter e.height w.depth (e.emit out w) := by
  obtain ⟨flush, he⟩ := e.emit_eq_run out w
  rw [he]
  exact h.depthAfter_run w hd

theorem DepthAfter.eq_of_le {height depth : Nat} {o : Outcome ε (Writer σ)}
    (ho : DepthAfter height depth o) (h : depth + height ≤ maxDepth) : o.state.depth = depth := by
  cases o with
  | done v =>
    simp only [DepthAfter] at ho
    simp only [Outcome.state]
    omega
  | failed error v =>
    simp only [DepthAfter] at ho
    simp only [Outcome.state]
    omega

end Run

/-- After a library element is emitted the depth is the least of the depth before and the
largest depth less the nesting of the element, and a failure on the way leaves it between
the two. So both ways it is restored when there is room for all the scopes. -/
theorem Element.Built.depth_after_emit {e : Element} (h : e.Built) (out : Sink σ ε)
    (w : Writer σ) (hd : w.depth ≤ maxDepth) :
    (∀ v, e.emit out w = .done v → v.depth = min w.depth (maxDepth - e.height)) ∧
    (∀ error v, e.emit out w = .failed error v →
      min w.depth (maxDepth - e.height) ≤ v.depth ∧ v.depth ≤ w.depth) ∧
    (w.depth + e.height ≤ maxDepth → (e.emit out w).state.depth = w.depth) ∧
    (w.depth + e.height < maxDepth →
      ((Element.indented [e]).emit out w).state.depth = w.depth) := by
  have he : DepthAfter e.height w.depth (e.emit out w) := h.plain.depthAfter_emit w hd
  refine ⟨fun v hv => ?_, fun error v hv => ?_, he.eq_of_le, fun hlt => ?_⟩
  · rw [hv] at he
    exact he
  · rw [hv] at he
    exact he
  · have hp : (Element.indented [e]).Plain := .indented (by simp [h.plain])
    refine (hp.depthAfter_emit w hd).eq_of_le ?_
    simp only [Element.height, Element.heightAll]
    omega

theorem depth_after_emit_class_at_bound :
    let f : Function := { name := "f", body := [.pass] }
    let c : Class := { name := "C", body := [.blankLine, f.element] }
    let w : Writer Tally := { unit := " ", terminator := "", depth := maxDepth, target := {} }
    c.element.Built ∧ w.depth ≤ maxDepth ∧
      (∀ v, c.element.emit (Sink.interrupted 9 none) w = .done v → v.depth = maxDepth - 2) ∧
      (∀ error v, c.element.emit (Sink.interrupted 9 none) w = .failed error v →
        maxDepth - 2 ≤ v.depth ∧ v.depth ≤ maxDepth) := by
  intro f c w
  have hf : f.element.Built := .functionDef f (by simp [f, Element.Built.pass])
  have hc : c.element.Built := .classDef c (by simp [c, hf, Element.Built.blankLine])
  have hheight : c.element.height = 2 := by
    rw [Class.height_element]
    decide
  have hd : w.depth ≤ maxDepth := Nat.le_refl _
  obtain ⟨hdone, hfailed, _⟩ := hc.depth_after_emit (Sink.interrupted 9 none) w hd
  rw [hheight, show min w.depth (maxDepth - 2) = maxDepth - 2 by decide] at hdone hfailed
  exact ⟨hc, hd, hdone, hfailed⟩

end Stencil
