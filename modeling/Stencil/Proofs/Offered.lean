import Stencil.Emit

/-! What a writer offers to its sink does not depend on the sink. Every sink is offered the
same texts in the same order up to the first one that it refuses, and a refusal ends the
emission with the sink's own error. -/

namespace Stencil

variable {σ τ ε : Type}

theorem Sink.appendAll_append (out : Sink σ ε) (xs ys : List String) (target : σ) :
    out.appendAll (xs ++ ys) target = (out.appendAll xs target).andThen (out.appendAll ys) := by
  induction xs generalizing target with
  | nil => rfl
  | cons s rest ih =>
    simp only [List.cons_append, Sink.appendAll]
    cases out.append s target with
    | done next => exact ih next
    | failed error last => rfl

theorem Sink.appendAll_cases (out : Sink σ ε) (texts : List String) (target : σ) :
    (∃ last, out.appendAll texts target = .done last) ∨
      ∃ accepted s rest middle error last, texts = accepted ++ s :: rest ∧
        out.appendAll accepted target = .done middle ∧
        out.append s middle = .failed error last := by
  induction texts generalizing target with
  | nil => exact .inl ⟨target, rfl⟩
  | cons s rest ih =>
    cases hs : out.append s target with
    | failed error last => exact .inr ⟨[], s, rest, target, error, last, rfl, rfl, hs⟩
    | done next =>
      rcases ih next with ⟨last, h⟩ | ⟨accepted, r, more, middle, error, last, he, ha, hr⟩
      · exact .inl ⟨last, by simpa [Sink.appendAll, hs] using h⟩
      · refine .inr ⟨s :: accepted, r, more, middle, error, last, by rw [he]; rfl, ?_, hr⟩
        simpa [Sink.appendAll, hs] using ha

theorem Sink.appendAll_refused {out : Sink σ ε} {accepted rest : List String} {s : String}
    {target middle last : σ} {error : ε} (ha : out.appendAll accepted target = .done middle)
    (hs : out.append s middle = .failed error last) :
    out.appendAll (accepted ++ s :: rest) target = .failed error last := by
  rw [Sink.appendAll_append, ha]
  simp [Sink.appendAll, hs]

/-- The same sink, with a record of the texts that it is offered. -/
def Sink.recorded (out : Sink σ ε) : Sink (σ × List String) ε where
  append s target := (out.append s target.1).map fun last => (last, target.2 ++ [s])

theorem Sink.appendAll_recorded {out : Sink σ ε} {texts : List String} {target last : σ}
    (seen : List String) (h : out.appendAll texts target = .done last) :
    out.recorded.appendAll texts (target, seen) = .done (last, seen ++ texts) := by
  induction texts generalizing target seen with
  | nil =>
    simp only [Sink.appendAll, Outcome.done.injEq] at h ⊢
    simp [h]
  | cons s rest ih =>
    cases hs : out.append s target with
    | failed error mark => simp [Sink.appendAll, hs] at h
    | done next =>
      have hn : out.appendAll rest next = .done last := by
        simpa [Sink.appendAll, hs] using h
      have hh := ih (seen ++ [s]) hn
      simpa [Sink.appendAll, Sink.recorded, hs] using hh

/-- The same writer before another sink. -/
def Writer.on (w : Writer τ) (target : σ) : Writer σ :=
  { w with target := target }

/-- The outcome is that of offering `texts` one after the other. When all are accepted the
writer is `after`, but for the state of the sink. -/
structure Offers (out : Sink σ ε) (texts : List String) (target : σ) (after : Writer Unit)
    (o : Outcome ε (Writer σ)) : Prop where
  reached : o.map Writer.target = out.appendAll texts target
  writer : ∀ v, o = .done v → v.on () = after

theorem Offers.done_iff {out : Sink σ ε} {texts : List String} {target last : σ}
    {after : Writer Unit} {o : Outcome ε (Writer σ)} (h : Offers out texts target after o) :
    out.appendAll texts target = .done last ↔ o = .done (after.on last) := by
  rw [← h.reached]
  cases o with
  | done v =>
    have hv := h.writer v rfl
    simp only [Outcome.map_done, Outcome.done.injEq, ← hv]
    constructor
    · rintro rfl
      rfl
    · intro e
      rw [e]
      rfl
  | failed error v => simp

theorem Offers.failed {out : Sink σ ε} {texts : List String} {target last : σ} {error : ε}
    {after : Writer Unit} {o : Outcome ε (Writer σ)} (h : Offers out texts target after o)
    (hf : out.appendAll texts target = .failed error last) :
    ∃ v, o = .failed error v ∧ v.target = last := by
  have hr := h.reached
  rw [hf] at hr
  cases o with
  | done v => simp at hr
  | failed e v =>
    simp only [Outcome.map_failed, Outcome.failed.injEq] at hr
    exact ⟨v, by rw [hr.1], hr.2⟩

theorem Offers.andThen {out : Sink σ ε} {xs ys : List String} {target : σ}
    {middle after : Writer Unit} {o : Outcome ε (Writer σ)}
    {next : Writer σ → Outcome ε (Writer σ)} (ho : Offers out xs target middle o)
    (hn : ∀ last, Offers out ys last after (next (middle.on last))) :
    Offers out (xs ++ ys) target after (o.andThen next) := by
  cases o with
  | done v =>
    have hv : middle.on v.target = v := by rw [← ho.writer v rfl]; rfl
    have hx : out.appendAll xs target = .done v.target := ho.reached.symm
    have hy := hn v.target
    rw [hv] at hy
    refine ⟨?_, hy.writer⟩
    rw [Sink.appendAll_append, hx]
    exact hy.reached
  | failed error v =>
    have hx : out.appendAll xs target = .failed error v.target := ho.reached.symm
    refine ⟨?_, fun u hu => by simp at hu⟩
    rw [Sink.appendAll_append, hx]
    rfl

theorem Offers.map {out : Sink σ ε} {texts : List String} {target : σ}
    {middle after : Writer Unit} {o : Outcome ε (Writer σ)} {f : Writer σ → Writer σ}
    (ho : Offers out texts target middle o) (hf : ∀ v, (f v).target = v.target)
    (hm : ∀ last, (f (middle.on last)).on () = after) :
    Offers out texts target after (o.map f) := by
  cases o with
  | done v =>
    have hv : middle.on v.target = v := by rw [← ho.writer v rfl]; rfl
    refine ⟨by rw [← ho.reached]; simp [hf], ?_⟩
    rintro u ⟨⟩
    rw [← hv]
    exact hm v.target
  | failed error v =>
    refine ⟨by rw [← ho.reached]; simp [hf], ?_⟩
    rintro u ⟨⟩

theorem offers_done (out : Sink σ ε) (w : Writer Unit) (target : σ) :
    Offers out [] target w (.done (w.on target)) := by
  refine ⟨rfl, ?_⟩
  rintro v ⟨⟩
  rfl

/-- An action of a writer that offers the same texts to every sink. -/
def Oblivious (act : (σ ε : Type) → Sink σ ε → Writer σ → Outcome ε (Writer σ)) : Prop :=
  ∀ w : Writer Unit, ∃ texts after, ∀ (σ ε : Type) (out : Sink σ ε) (target : σ),
    Offers out texts target after (act σ ε out (w.on target))

section Actions

variable {act next : (σ ε : Type) → Sink σ ε → Writer σ → Outcome ε (Writer σ)}

theorem Oblivious.andThen (ha : Oblivious act) (hn : Oblivious next) :
    Oblivious fun σ ε out w => (act σ ε out w).andThen (next σ ε out) := by
  intro w
  obtain ⟨xs, middle, hx⟩ := ha w
  obtain ⟨ys, after, hy⟩ := hn middle
  exact ⟨xs ++ ys, after, fun σ ε out target => (hx σ ε out target).andThen (hy σ ε out)⟩

/-- A step that changes the writer without a look at the sink. -/
theorem oblivious_done {f : (σ : Type) → Writer σ → Writer σ}
    (hf : ∀ (w : Writer Unit) (σ : Type) (target : σ), f σ (w.on target) = (f Unit w).on target) :
    Oblivious fun σ _ _ w => .done (f σ w) := by
  intro w
  refine ⟨[], f Unit w, fun σ ε out target => ?_⟩
  simp only [hf]
  exact offers_done out (f Unit w) target

theorem Oblivious.map {f : (σ : Type) → Writer σ → Writer σ} (ha : Oblivious act)
    (ht : ∀ (σ : Type) (v : Writer σ), (f σ v).target = v.target)
    (hf : ∀ (w : Writer Unit) (σ : Type) (target : σ), f σ (w.on target) = (f Unit w).on target) :
    Oblivious fun σ ε out w => (act σ ε out w).map (f σ) := by
  intro w
  obtain ⟨texts, middle, h⟩ := ha w
  refine ⟨texts, f Unit middle, fun σ ε out target => (h σ ε out target).map (ht σ) ?_⟩
  intro last
  rw [hf]
  rfl

/-- A choice that the writer makes by its own state. -/
theorem Oblivious.ite {p : (σ : Type) → Writer σ → Prop} [∀ σ w, Decidable (p σ w)]
    (hp : ∀ (w : Writer Unit) (σ : Type) (target : σ), p σ (w.on target) ↔ p Unit w)
    (ha : Oblivious act) (hn : Oblivious next) :
    Oblivious fun σ ε out w => if p σ w then act σ ε out w else next σ ε out w := by
  intro w
  by_cases h : p Unit w
  · obtain ⟨texts, after, hh⟩ := ha w
    refine ⟨texts, after, fun σ ε out target => ?_⟩
    simpa only [hp, h, if_true] using hh σ ε out target
  · obtain ⟨texts, after, hh⟩ := hn w
    refine ⟨texts, after, fun σ ε out target => ?_⟩
    simpa only [hp, h, if_false] using hh σ ε out target

end Actions

namespace Writer

theorem offers_offer (out : Sink σ ε) (s : String) (w : Writer Unit) (target : σ) :
    Offers out [s] target w ((w.on target).offer out s) := by
  refine ⟨?_, ?_⟩
  · cases hs : out.append s target <;> simp [offer, on, Sink.appendAll, hs]
  · intro v h
    cases hs : out.append s target with
    | done last =>
      simp only [offer, on, hs, Outcome.map_done, Outcome.done.injEq] at h
      rw [← h]
      rfl
    | failed error last => simp [offer, on, hs] at h

theorem oblivious_offer (s : String) : Oblivious fun _ _ out w => w.offer out s :=
  fun w => ⟨[s], w, fun _ _ out target => offers_offer out s w target⟩

theorem oblivious_offerCounted (s : String) :
    Oblivious fun _ _ out w => w.offerCounted out s :=
  (oblivious_offer s).andThen (oblivious_done fun _ _ _ => rfl)

theorem oblivious_pad (levels : Nat) : Oblivious fun _ _ out w => w.pad out levels := by
  induction levels with
  | zero => exact oblivious_done fun _ _ _ => rfl
  | succ levels ih => exact fun w => ((oblivious_offer w.unit).andThen ih) w

theorem oblivious_openLine : Oblivious fun _ _ out w => w.openLine out := by
  apply Oblivious.ite (fun _ _ _ => Iff.rfl)
  · exact fun w => ((oblivious_pad w.depth).andThen (oblivious_done fun _ _ _ => rfl)) w
  · exact oblivious_done fun _ _ _ => rfl

theorem oblivious_write (s : String) : Oblivious fun _ _ out w => w.write out s := by
  by_cases h : s.isEmpty
  · simpa only [write, h, if_true] using oblivious_done fun _ _ _ => rfl
  · simpa only [write, h, Bool.false_eq_true, if_false] using
      oblivious_openLine.andThen (oblivious_offerCounted s)

theorem oblivious_lineFeed : Oblivious fun _ _ out w => w.lineFeed out :=
  fun w => ((oblivious_offerCounted w.terminator).andThen (oblivious_done fun _ _ _ => rfl)) w

theorem oblivious_freshLine : Oblivious fun _ _ out w => w.freshLine out :=
  Oblivious.ite (fun _ _ _ => Iff.rfl) (oblivious_done fun _ _ _ => rfl) oblivious_lineFeed

variable {visit : (σ ε : Type) → Sink σ ε → Element → Writer σ → Outcome ε (Writer σ)}

theorem oblivious_visitAll (hv : ∀ e, Oblivious fun σ ε out => visit σ ε out e)
    (es : List Element) :
    Oblivious fun σ ε out => flushWith.visitAll (visit σ ε out) es := by
  induction es with
  | nil => exact oblivious_done fun _ _ _ => rfl
  | cons e es ih => exact (hv e).andThen ih

theorem oblivious_flushWith (hv : ∀ e, Oblivious fun σ ε out => visit σ ε out e) :
    Oblivious fun σ ε out => flushWith (visit σ ε out) := by
  intro w
  obtain ⟨texts, after, h⟩ := oblivious_visitAll hv w.elements { w with elements := [] }
  exact ⟨texts, { after with elements := w.elements ++ after.elements }, fun σ ε out target =>
    (h σ ε out target).map (fun _ => rfl) (fun _ => rfl)⟩

end Writer

section Elements

variable {flush : (σ ε : Type) → Sink σ ε → Writer σ → Outcome ε (Writer σ)}

/-- Whether the placeholder is written depends on the bytes counted, and these are the same
for every sink that has accepted what came before. -/
theorem oblivious_body
    {inner placeholder : (σ ε : Type) → Sink σ ε → Writer σ → Outcome ε (Writer σ)}
    (hi : Oblivious inner) (hp : Oblivious placeholder) :
    Oblivious fun σ ε out w =>
      (((inner σ ε out (w.indent 1)).andThen fun v =>
          if v.written = w.written then placeholder σ ε out v else .done v).map
        (·.dedent 1)).andThen (·.freshLine out) := by
  intro w
  have hindent : Oblivious fun _ _ _ v => .done (v.indent 1) := oblivious_done fun _ _ _ => rfl
  have hchoice : Oblivious fun σ ε out v =>
      if v.written = w.written then placeholder σ ε out v else .done v :=
    Oblivious.ite (fun _ _ _ => Iff.rfl) hp (oblivious_done fun _ _ _ => rfl)
  have hscope := ((hindent.andThen hi).andThen hchoice).map
    (f := fun _ v => v.dedent 1) (fun _ _ => rfl) (fun _ _ _ => rfl)
  exact (hscope.andThen Writer.oblivious_freshLine) w

mutual

theorem Element.oblivious_run (hf : Oblivious flush) :
    (e : Element) → Oblivious fun σ ε out => e.run out (flush σ ε out)
  | .text s => Writer.oblivious_write s
  | .lineFeed => Writer.oblivious_lineFeed
  | .freshLine => Writer.oblivious_freshLine
  | .seq parts => Element.oblivious_runAll hf parts
  | .indented parts =>
    ((oblivious_done (f := fun _ v => v.indent 1) fun _ _ _ => rfl).andThen
      (Element.oblivious_runAll hf parts)).map (fun _ _ => rfl) (fun _ _ _ => rfl)
  | .body children placeholder =>
    oblivious_body (Element.oblivious_runAll hf children) (Element.oblivious_run hf placeholder)
  | .indent _ | .dedent _ | .reset | .register _ => oblivious_done fun _ _ _ => rfl
  | .flush => hf

theorem Element.oblivious_runAll (hf : Oblivious flush) :
    (es : List Element) → Oblivious fun σ ε out => Element.runAll out (flush σ ε out) es
  | [] => oblivious_done fun _ _ _ => rfl
  | e :: es => (Element.oblivious_run hf e).andThen (Element.oblivious_runAll hf es)

end

theorem Element.oblivious_emitAt (level : Nat) (e : Element) :
    Oblivious fun _ _ out => e.emitAt out level := by
  induction level generalizing e with
  | zero =>
    have hf : Oblivious fun _ _ _ w => .done w := oblivious_done fun _ _ _ => rfl
    exact e.oblivious_run hf
  | succ level ih => exact e.oblivious_run (Writer.oblivious_flushWith ih)

theorem Element.emit_offers (e : Element) (w : Writer Unit) :
    ∃ texts after, ∀ (σ ε : Type) (out : Sink σ ε) (target : σ),
      Offers out texts target after (e.emit out (w.on target)) :=
  e.oblivious_emitAt (max e.rank (registeredRank w.elements)) w

end Elements

/-- The texts that an element offers are fixed before any sink is chosen. A sink that accepts
them all is offered them all; any other is offered those up to the first that it refuses,
and the emission fails with the error of that refusal. -/
theorem emit_ends_at_first_refusal (e : Element) (w : Writer Unit) :
    ∃ texts : List String, ∀ (σ ε : Type) (out : Sink σ ε) (target : σ),
      (∃ last v, out.appendAll texts target = .done last ∧
        e.emit out (w.on target) = .done v ∧ v.target = last ∧
        (e.emit out.recorded (w.on (target, []))).state.target = (last, texts)) ∨
      (∃ accepted s rest middle error last v, texts = accepted ++ s :: rest ∧
        out.appendAll accepted target = .done middle ∧ out.append s middle = .failed error last ∧
        e.emit out (w.on target) = .failed error v ∧ v.target = last ∧
        (e.emit out.recorded (w.on (target, []))).state.target = (last, accepted ++ [s])) := by
  obtain ⟨texts, after, h⟩ := e.emit_offers w
  refine ⟨texts, fun σ ε out target => ?_⟩
  have hout := h σ ε out target
  have hrec := h (σ × List String) ε out.recorded (target, [])
  rcases out.appendAll_cases texts target with
    ⟨last, hl⟩ | ⟨accepted, s, rest, middle, error, last, he, ha, hs⟩
  · refine .inl ⟨last, after.on last, hl, hout.done_iff.mp hl, rfl, ?_⟩
    rw [hrec.done_iff.mp (Sink.appendAll_recorded [] hl)]
    rfl
  · have hf : out.appendAll texts target = .failed error last := by
      rw [he]
      exact Sink.appendAll_refused ha hs
    have hr : out.recorded.appendAll texts (target, []) =
        .failed error (last, accepted ++ [s]) := by
      rw [he]
      refine Sink.appendAll_refused (Sink.appendAll_recorded [] ha) ?_
      simp [Sink.recorded, hs]
    obtain ⟨v, hv, ht⟩ := hout.failed hf
    obtain ⟨u, hu, htu⟩ := hrec.failed hr
    exact .inr ⟨accepted, s, rest, middle, error, last, v, he, ha, hs, hv, ht,
      by rw [hu]; exact htu⟩

end Stencil
