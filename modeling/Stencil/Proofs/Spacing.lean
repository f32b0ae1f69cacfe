import Stencil.Proofs.Bodies
import Stencil.Proofs.Depth
import Stencil.Proofs.Rules

/-! The empty lines between definitions. A definition that writes nothing still gets the empty
lines before it, or gives them to the one after it, so only an empty module takes such a
definition without a trace. -/

namespace Stencil

variable {ε : Type}

/-- The same writer with more text before it. -/
def Writer.behind (past : String) (count : Nat) (w : Writer String) : Writer String :=
  { w with target := past ++ w.target, written := count + w.written }

/-- Does the same whatever was written before, and keeps the terminator. -/
structure Steady (act : Writer String → Outcome ε (Writer String)) : Prop where
  behind : ∀ past count w, act (w.behind past count) = (act w).map (Writer.behind past count)
  terminator : Writer.Keeps Writer.terminator act

namespace Steady

variable {act next : Writer String → Outcome ε (Writer String)}

theorem andThen (ha : Steady act) (hn : Steady next) : Steady fun w => (act w).andThen next := by
  refine ⟨fun past count w => ?_, ha.terminator.andThen hn.terminator⟩
  have h := ha.behind past count w
  simp only [h]
  cases act w with
  | done v => exact hn.behind past count v
  | failed error v => rfl

theorem map {f : Writer String → Writer String} (ha : Steady act)
    (hf : ∀ past count v, f (v.behind past count) = (f v).behind past count)
    (ht : ∀ v, (f v).terminator = v.terminator) : Steady fun w => (act w).map f := by
  refine ⟨fun past count w => ?_, fun w => ?_⟩
  · rw [ha.behind]
    cases act w with
    | done v => exact congrArg Outcome.done (hf past count v)
    | failed error v => exact congrArg (Outcome.failed error) (hf past count v)
  · rw [Outcome.state_map, ht]
    exact ha.terminator w

end Steady

theorem steady_stay : Steady (.done : Writer String → Outcome ε (Writer String)) :=
  ⟨fun _ _ _ => rfl, fun _ => rfl⟩

/-- A step that changes neither text nor count nor terminator. -/
theorem steady_done {f : Writer String → Writer String}
    (hf : ∀ past count v, f (v.behind past count) = (f v).behind past count)
    (ht : ∀ v, (f v).terminator = v.terminator) :
    Steady fun w => (.done (f w) : Outcome ε (Writer String)) :=
  ⟨fun past count w => congrArg Outcome.done (hf past count w), ht⟩

namespace Writer

theorem settled_terminator : Settled (Writer.terminator : Writer String → String) :=
  fun _ _ _ _ => rfl

theorem steady_offer (s : String) : Steady (Writer.offer (Sink.text : Sink String ε) s) := by
  refine ⟨fun past count w => ?_, keeps_offer settled_terminator _ s⟩
  simp only [offer, Sink.text, behind, Outcome.map_done, String.append_assoc]

theorem steady_offerCounted (s : String) :
    Steady (Writer.offerCounted (Sink.text : Sink String ε) s) := by
  refine (steady_offer s).andThen (steady_done (fun past count v => ?_) fun _ => rfl)
  simp only [behind, Nat.add_assoc]

theorem steady_pad (levels : Nat) : Steady (Writer.pad (Sink.text : Sink String ε) levels) := by
  induction levels with
  | zero => exact steady_stay
  | succ levels ih =>
    exact ⟨fun past count w => ((steady_offer w.unit).andThen ih).behind past count w,
      keeps_pad settled_terminator _ _⟩

theorem steady_openLine : Steady (Writer.openLine (Sink.text : Sink String ε)) := by
  refine ⟨fun past count w => ?_, keeps_openLine settled_terminator _⟩
  unfold openLine
  by_cases hs : w.atLineStart = true
  · have hpad : Steady fun v : Writer String => (v.pad (Sink.text : Sink String ε) w.depth).andThen
        fun v => .done { v with atLineStart := false } :=
      (steady_pad w.depth).andThen (steady_done (fun _ _ _ => rfl) fun _ => rfl)
    simpa [behind, hs] using hpad.behind past count w
  · simp [behind, hs]

theorem steady_write (s : String) : Steady (Writer.write (Sink.text : Sink String ε) s) := by
  unfold Writer.write
  by_cases hs : s.isEmpty = true
  · simp only [hs, if_true]
    exact steady_stay
  · simp only [hs, Bool.false_eq_true, if_false]
    exact steady_openLine.andThen (steady_offerCounted s)

theorem steady_lineFeed : Steady (Writer.lineFeed (Sink.text : Sink String ε)) := by
  refine ⟨fun past count w => ?_, keeps_lineFeed settled_terminator _⟩
  have hfeed : Steady fun v : Writer String =>
      (v.offerCounted (Sink.text : Sink String ε) w.terminator).andThen
        fun v => .done { v with atLineStart := true } :=
    (steady_offerCounted w.terminator).andThen (steady_done (fun _ _ _ => rfl) fun _ => rfl)
  exact hfeed.behind past count w

theorem steady_freshLine : Steady (Writer.freshLine (Sink.text : Sink String ε)) := by
  refine ⟨fun past count w => ?_, keeps_freshLine settled_terminator _⟩
  unfold freshLine
  by_cases hs : w.atLineStart = true
  · simp [behind, hs]
  · simpa [behind, hs] using steady_lineFeed.behind past count w

theorem steady_visitAll {visit : Element → Writer String → Outcome ε (Writer String)}
    (hv : ∀ e, Steady (visit e)) (es : List Element) : Steady (flushWith.visitAll visit es) := by
  induction es with
  | nil => exact steady_stay
  | cons e es ih => exact (hv e).andThen ih

theorem steady_flushWith {visit : Element → Writer String → Outcome ε (Writer String)}
    (hv : ∀ e, Steady (visit e)) : Steady (flushWith visit) := by
  have hscope : ∀ es : List Element, Steady fun w : Writer String =>
      (flushWith.visitAll visit es { w with elements := [] }).map fun v =>
        { v with elements := es ++ v.elements } := by
    intro es
    have hclear : Steady fun w : Writer String =>
        (.done { w with elements := [] } : Outcome ε (Writer String)) :=
      steady_done (fun _ _ _ => rfl) fun _ => rfl
    exact (hclear.andThen (steady_visitAll hv es)).map (fun _ _ _ => rfl) fun _ => rfl
  exact ⟨fun past count w => (hscope w.elements).behind past count w,
    fun w => (hscope w.elements).terminator w⟩

end Writer

section Elements

variable {flush : Writer String → Outcome ε (Writer String)}

/-- Whether the placeholder is written depends on the difference of two counts. -/
theorem steady_body {inner placeholder : Writer String → Outcome ε (Writer String)}
    (hi : Steady inner) (hp : Steady placeholder) :
    Steady fun w =>
      (((inner (w.indent 1)).andThen fun v =>
          if v.written = w.written then placeholder v else .done v).map
        (·.dedent 1)).andThen (·.freshLine Sink.text) := by
  refine ⟨fun past count w => ?_, fun w => ?_⟩
  · have hinner : inner ((w.behind past count).indent 1) =
        (inner (w.indent 1)).map (Writer.behind past count) := hi.behind past count (w.indent 1)
    simp only [hinner]
    cases inner (w.indent 1) with
    | failed error v => rfl
    | done v =>
      have hcount : (v.behind past count).written = (w.behind past count).written ↔
          v.written = w.written := Nat.add_left_cancel_iff
      have hchoice : (if (v.behind past count).written = (w.behind past count).written then
            placeholder (v.behind past count) else .done (v.behind past count)) =
          (if v.written = w.written then placeholder v else .done v).map
            (Writer.behind past count) := by
        by_cases h : v.written = w.written
        · rw [if_pos h, if_pos (hcount.mpr h), hp.behind]
        · rw [if_neg h, if_neg (mt hcount.mp h), Outcome.map_done]
      simp only [Outcome.map_done, Outcome.andThen_done, hchoice]
      generalize (if v.written = w.written then placeholder v else .done v) = o
      cases o with
      | failed error u => rfl
      | done u => exact Writer.steady_freshLine.behind past count (u.dedent 1)
  · have hinner : (inner (w.indent 1)).state.terminator = w.terminator := hi.terminator (w.indent 1)
    generalize inner (w.indent 1) = o at hinner ⊢
    cases o with
    | failed error v => exact hinner
    | done v =>
      have hchoice : (if v.written = w.written then placeholder v else .done v).state.terminator =
          w.terminator := by
        split
        · exact (hp.terminator v).trans hinner
        · exact hinner
      simp only [Outcome.andThen_done]
      generalize (if v.written = w.written then placeholder v else .done v) = o at hchoice ⊢
      cases o with
      | failed error u => exact hchoice
      | done u => exact (Writer.steady_freshLine.terminator (u.dedent 1)).trans hchoice

mutual

theorem Element.steady_run (hf : Steady flush) :
    (e : Element) → Steady (e.run (Sink.text : Sink String ε) flush)
  | .text s => Writer.steady_write s
  | .lineFeed => Writer.steady_lineFeed
  | .freshLine => Writer.steady_freshLine
  | .seq parts => Element.steady_runAll hf parts
  | .indented parts =>
    ((steady_done (f := fun v => v.indent 1) (fun _ _ _ => rfl) fun _ => rfl).andThen
      (Element.steady_runAll hf parts)).map (fun _ _ _ => rfl) fun _ => rfl
  | .body children placeholder =>
    steady_body (Element.steady_runAll hf children) (Element.steady_run hf placeholder)
  | .indent _ | .dedent _ | .reset | .register _ => steady_done (fun _ _ _ => rfl) fun _ => rfl
  | .flush => hf

theorem Element.steady_runAll (hf : Steady flush) :
    (es : List Element) → Steady (Element.runAll (Sink.text : Sink String ε) flush es)
  | [] => steady_stay
  | e :: es => (Element.steady_run hf e).andThen (Element.steady_runAll hf es)

end

theorem Element.steady_emitAt (level : Nat) (e : Element) :
    Steady (e.emitAt (Sink.text : Sink String ε) level) := by
  induction level generalizing e with
  | zero => exact e.steady_run steady_stay
  | succ level ih => exact e.steady_run (Writer.steady_flushWith ih)

/-- All elements that are written at one level flush alike. -/
theorem Element.exists_emitAt_eq_run (ε : Type) (level : Nat) :
    ∃ flush : Writer String → Outcome ε (Writer String), Steady flush ∧
      ∀ e : Element, e.emitAt Sink.text level = e.run Sink.text flush := by
  cases level with
  | zero => exact ⟨.done, steady_stay, fun _ => rfl⟩
  | succ level =>
    exact ⟨Writer.flushWith (Element.emitAt Sink.text level),
      Writer.steady_flushWith (Element.steady_emitAt level), fun _ => rfl⟩

end Elements

/-- A level that registrations do not reach leaves no trace. -/
theorem Element.emitAt_eq_emit {e : Element} {level : Nat} (he : e.rank ≤ level)
    {w : Writer String} (hw : w.elements = []) :
    e.emitAt (Sink.text : Sink String ε) level w = e.emit Sink.text w := by
  have hbelow : w.Below level := by simp [Writer.Below, hw]
  obtain ⟨log, hlevel⟩ : Reaches (Sink.text : Sink String ε) (.element e) w
      (e.emitAt Sink.text level w) := Element.reaches_emitAt level e w he hbelow
  obtain ⟨log', hemit⟩ : Reaches (Sink.text : Sink String ε) (.element e) w
      (e.emit Sink.text w) := Element.reaches_emit e w
  exact (hlevel.deterministic hemit).2

/-- Definitions with two empty lines before each, or before each but the first. -/
def spaced : Bool → List Element → List Element
  | _, [] => []
  | false, e :: es => e :: spaced true es
  | true, e :: es => gap 2 :: e :: spaced true es

theorem spaced_append (started : Bool) (xs ys : List Element) :
    spaced started (xs ++ ys) = spaced started xs ++ spaced (started || !xs.isEmpty) ys := by
  induction xs generalizing started with
  | nil => simp [spaced]
  | cons x xs ih => cases started <;> simp [spaced, ih]

theorem spaced_true (es : List Element) : spaced true es = es.flatMap fun e => [gap 2, e] := by
  induction es with
  | nil => rfl
  | cons e es ih => simp [spaced, ih]

theorem Module.definitions_eq_spaced (m : Module) :
    m.definitions = spaced (!m.sections.isEmpty) m.body := by
  unfold definitions
  split
  · next hs =>
    rw [hs, Bool.not_true]
    cases m.body with
    | nil => rfl
    | cons e es =>
      rw [spaced]
      induction es generalizing e with
      | nil => rfl
      | cons a es ih =>
        rw [List.intersperse_cons_cons, ih, spaced]
  · next hs => rw [Bool.eq_false_iff.mpr hs, Bool.not_false, spaced_true]

/-- The writer after two empty lines. -/
def Writer.skipped (w : Writer String) : Writer String :=
  { w with
    target := w.target ++ (w.terminator ++ w.terminator)
    written := w.written + (w.terminator.utf8ByteSize + w.terminator.utf8ByteSize) }

/-- Two empty lines more stand between what was written before and what is written now. -/
theorem Steady.target_skipped {act : Writer String → Outcome ε (Writer String)} (h : Steady act)
    (w : Writer String) :
    ∃ text, (act w).state.target = w.target ++ text ∧
      (act w.skipped).state.target = w.target ++ (w.terminator ++ w.terminator) ++ text := by
  -- both writers are one without any history, put behind different texts
  obtain ⟨fresh, hfresh⟩ : ∃ fresh : Writer String,
      fresh = { w with target := "", written := 0 } := ⟨_, rfl⟩
  have hbehind : ∀ past count, (act { w with target := past, written := count }).state.target =
      past ++ (act fresh).state.target := by
    intro past count
    have hw : { w with target := past, written := count } = fresh.behind past count := by
      simp [hfresh, Writer.behind]
    rw [hw, h.behind, Outcome.state_map]
    rfl
  exact ⟨(act fresh).state.target, hbehind w.target w.written, hbehind _ _⟩

section Insertion

variable {flush : Writer String → Outcome ε (Writer String)} {w v : Writer String}

theorem Writer.exists_freshLine (ε : Type) (w : Writer String) :
    ∃ v, w.freshLine (Sink.text : Sink String ε) = .done v ∧ v.atLineStart = true ∧
      v.terminator = w.terminator := by
  obtain ⟨target, -, hfresh⟩ := Writer.freshLine_done
    (fun s target => ⟨target ++ s, rfl⟩ : ∀ s target, ∃ last,
      (Sink.text : Sink String ε).append s target = .done last) w
  exact ⟨_, hfresh, rfl, rfl⟩

theorem runAll_gap (hv : w.freshLine (Sink.text : Sink String ε) = .done v)
    (hs : v.atLineStart = true) (es : List Element) :
    Element.runAll Sink.text flush (gap 2 :: es) w =
      Element.runAll Sink.text flush es v.skipped := by
  have hfeeds : Element.runAll Sink.text flush [.lineFeed, .lineFeed] v = .done v.skipped := by
    simp [Element.runAll, Element.run, Writer.lineFeed, Writer.offerCounted, Writer.offer,
      Sink.text, Writer.skipped, hs, String.append_assoc, Nat.add_assoc]
  have hgap : (gap 2).run Sink.text flush w =
      (w.freshLine Sink.text).andThen (Element.runAll Sink.text flush [.lineFeed, .lineFeed]) := rfl
  rw [Element.runAll, hgap, hv, Outcome.andThen_done, hfeeds, Outcome.andThen_done]

theorem runAll_silent {e : Element} (he : e.Silent) (hs : w.atLineStart = true)
    (es : List Element) :
    Element.runAll Sink.text flush (e :: es) w = Element.runAll Sink.text flush es w := by
  rw [Element.runAll, he.run_eq hs, Outcome.andThen_done]

/-- Whatever follows a definition begins a new line. -/
theorem exists_runAll_spaced (hf : Steady flush) (ys : List Element) :
    ∃ act : Writer String → Outcome ε (Writer String), Steady act ∧ ∀ w v : Writer String,
      w.freshLine (Sink.text : Sink String ε) = .done v → v.atLineStart = true →
        Element.runAll Sink.text flush (spaced true ys ++ [.freshLine]) w = act v := by
  cases ys with
  | nil =>
    refine ⟨.done, steady_stay, fun w v hv _ => ?_⟩
    rw [spaced, List.nil_append, Element.runAll_singleton]
    exact hv
  | cons y ys =>
    have hskip : Steady fun v : Writer String => (.done v.skipped : Outcome ε (Writer String)) := by
      refine steady_done (fun past count v => ?_) fun _ => rfl
      simp only [Writer.skipped, Writer.behind, String.append_assoc, Nat.add_assoc]
    exact ⟨_, hskip.andThen (Element.steady_runAll hf (y :: (spaced true ys ++ [.freshLine]))),
      fun w v hv hs => runAll_gap hv hs _⟩

theorem runAll_spaced_insert (hf : Steady flush) {e : Element} (he : e.Silent) (ys : List Element)
    (hv : w.freshLine (Sink.text : Sink String ε) = .done v) (hs : v.atLineStart = true) :
    ∃ post,
      (Element.runAll Sink.text flush (spaced true ys ++ [.freshLine]) w).state.target =
        v.target ++ post ∧
      (Element.runAll Sink.text flush (spaced true (e :: ys) ++ [.freshLine]) w).state.target =
        v.target ++ (v.terminator ++ v.terminator) ++ post := by
  obtain ⟨act, hact, hrun⟩ := exists_runAll_spaced hf ys
  obtain ⟨text, hbefore, hafter⟩ := hact.target_skipped v
  have hskipped : v.skipped.atLineStart = true := hs
  have hfresh : v.skipped.freshLine (Sink.text : Sink String ε) = .done v.skipped := by
    simp [Writer.freshLine, hskipped]
  have hinserted : Element.runAll Sink.text flush (spaced true (e :: ys) ++ [.freshLine]) w =
      act v.skipped := by
    rw [spaced, List.cons_append, List.cons_append, runAll_gap hv hs, runAll_silent he hskipped,
      hrun v.skipped v.skipped hfresh hskipped]
  exact ⟨text, by rw [hrun w v hv hs, hbefore], by rw [hinserted, hafter]⟩

theorem runAll_first_insert (hf : Steady flush) {e : Element} (he : e.Silent) (y : Element)
    (ys : List Element) (hs : w.atLineStart = true) (hw : w.target = "") :
    (Element.runAll Sink.text flush (spaced false (e :: y :: ys) ++ [.freshLine]) w).state.target =
      w.terminator ++ w.terminator ++ (Element.runAll Sink.text flush
        (spaced false (y :: ys) ++ [.freshLine]) w).state.target := by
  have hfresh : w.freshLine (Sink.text : Sink String ε) = .done w := by
    simp [Writer.freshLine, hs]
  obtain ⟨text, hbefore, hafter⟩ :=
    (Element.steady_runAll hf (y :: (spaced true ys ++ [.freshLine]))).target_skipped w
  rw [hw, String.empty_append] at hbefore hafter
  simp only [spaced, List.cons_append]
  rw [runAll_silent he hs, runAll_gap hfresh hs, hbefore, hafter]

end Insertion

namespace Module

/-- One flush does for all modules whose elements register no deeper than `level`. -/
theorem exists_render_eq (m : Module) (level : Nat) :
    ∃ flush : Writer String → Outcome Empty (Writer String), Steady flush ∧
      ∀ body, ({ m with body := body } : Module).element.rank ≤ level →
        ({ m with body := body } : Module).render = (Element.runAll Sink.text flush
          (m.sections.intersperse (gap 1) ++ spaced (!m.sections.isEmpty) body ++ [.freshLine])
          (Writer.ofStyle m.style "")).state.target := by
  obtain ⟨flush, hf, hrun⟩ := Element.exists_emitAt_eq_run Empty level
  refine ⟨flush, hf, fun body hbody => ?_⟩
  have hdefinitions := definitions_eq_spaced { m with body := body }
  rw [render, Element.render, ← Element.emitAt_eq_emit hbody rfl, hrun, element, hdefinitions]
  rfl

theorem isEmpty_iff (m : Module) : m.isEmpty = true ↔ m.sections = [] ∧ m.body = [] := by
  rw [sections_eq_nil_iff]
  simp [isEmpty, and_assoc]

/-- Where something stands before the place, two empty lines are added there. -/
theorem render_insert_started (m : Module) {xs : List Element} (ys : List Element) {e : Element}
    (he : e.Silent) (hstarted : (!m.sections.isEmpty || !xs.isEmpty) = true) :
    ∃ post,
      ({ m with body := xs ++ ys } : Module).render =
        ({ m with body := xs } : Module).render ++ post ∧
      ({ m with body := xs ++ e :: ys } : Module).render =
        ({ m with body := xs } : Module).render
          ++ (m.style.lineEnding.terminator ++ m.style.lineEnding.terminator) ++ post := by
  obtain ⟨flush, hf, hrender⟩ := m.exists_render_eq
    (max ({ m with body := xs } : Module).element.rank
      (max ({ m with body := xs ++ ys } : Module).element.rank
        ({ m with body := xs ++ e :: ys } : Module).element.rank))
  obtain ⟨front, hfront⟩ : ∃ front, front =
      m.sections.intersperse (gap 1) ++ spaced (!m.sections.isEmpty) xs := ⟨_, rfl⟩
  have hparts : ∀ zs : List Element,
      m.sections.intersperse (gap 1) ++ spaced (!m.sections.isEmpty) (xs ++ zs) ++ [.freshLine] =
        front ++ (spaced true zs ++ [.freshLine]) := by
    intro zs
    rw [hfront, spaced_append, hstarted, List.append_assoc, List.append_assoc, List.append_assoc]
  -- a text refuses nothing, so what stands before the place is written to its end
  obtain ⟨u, hu, hterminator⟩ : ∃ u,
      Element.runAll Sink.text flush front (Writer.ofStyle m.style "") = .done u ∧
        u.terminator = m.style.lineEnding.terminator := by
    have hkeeps := (Element.steady_runAll hf front).terminator (Writer.ofStyle m.style "")
    generalize Element.runAll Sink.text flush front (Writer.ofStyle m.style "") = o at hkeeps
    cases o with
    | done u => exact ⟨u, rfl, hkeeps⟩
    | failed error u => exact error.elim
  obtain ⟨v, hv, hs, hsame⟩ := Writer.exists_freshLine Empty u
  obtain ⟨post, hbefore, hafter⟩ := runAll_spaced_insert hf he ys hv hs
  have hstart : ({ m with body := xs } : Module).render = v.target := by
    rw [hrender xs (by omega), ← hfront, Element.runAll_append, hu, Outcome.andThen_done,
      Element.runAll_singleton, Element.run, hv]
    rfl
  rw [hsame, hterminator] at hafter
  refine ⟨post, ?_, ?_⟩
  · rw [hrender (xs ++ ys) (by omega), hparts, Element.runAll_append, hu, Outcome.andThen_done,
      hbefore, hstart]
  · rw [hrender (xs ++ e :: ys) (by omega), hparts, Element.runAll_append, hu,
      Outcome.andThen_done, hafter, hstart]

/-- At the very beginning they come before the definition that was the first. -/
theorem render_insert_first {m : Module} (hnone : m.sections = []) (y : Element)
    (ys : List Element) {e : Element} (he : e.Silent) :
    ({ m with body := e :: y :: ys } : Module).render =
      m.style.lineEnding.terminator ++ m.style.lineEnding.terminator ++
        ({ m with body := y :: ys } : Module).render := by
  obtain ⟨flush, hf, hrender⟩ := m.exists_render_eq
    (max ({ m with body := y :: ys } : Module).element.rank
      ({ m with body := e :: y :: ys } : Module).element.rank)
  rw [hrender (e :: y :: ys) (by omega), hrender (y :: ys) (by omega), hnone]
  exact runAll_first_insert hf he y ys rfl rfl

theorem render_of_silent {m : Module} (hnone : m.sections = []) (he : ∀ e ∈ m.body, e.Silent)
    (hone : m.body.length ≤ 1) : m.render = "" := by
  have hparts := m.sections_eq_nil_iff.mp hnone
  have hsilent : m.element.Silent := .module hparts.1 hparts.2.1 hparts.2.2 hone he
  obtain ⟨flush, hrun⟩ := m.element.emit_eq_run (Sink.text : Sink String Empty)
    (Writer.ofStyle m.style "")
  rw [render, Element.render, hrun, hsilent.run_eq rfl]
  rfl

/-- A definition that writes nothing is added without a trace to an empty module only. To any
other module it adds two empty lines at its place, after the text of what stands before. -/
theorem render_insert_silent (m : Module) (xs ys : List Element) {e : Element} (he : e.Silent) :
    let start : Module := { m with body := xs }
    let before : Module := { m with body := xs ++ ys }
    let after : Module := { m with body := xs ++ e :: ys }
    let blank := m.style.lineEnding.terminator ++ m.style.lineEnding.terminator
    (after.render = before.render ↔ before.isEmpty = true) ∧
      (before.isEmpty = false → ∃ post,
        before.render = start.render ++ post ∧ after.render = start.render ++ blank ++ post) := by
  intro start before after blank
  have hempty : before.isEmpty = true ↔ m.sections = [] ∧ xs ++ ys = [] := before.isEmpty_iff
  have hadded : before.isEmpty = false → ∃ post,
      before.render = start.render ++ post ∧ after.render = start.render ++ blank ++ post := by
    intro hfull
    by_cases hstarted : (!m.sections.isEmpty || !xs.isEmpty) = true
    · exact m.render_insert_started ys he hstarted
    · simp only [Bool.or_eq_true, Bool.not_eq_true', not_or, Bool.not_eq_false,
        List.isEmpty_iff] at hstarted
      obtain ⟨hnone, rfl⟩ := hstarted
      have hstart : start.render = "" := render_of_silent hnone (by simp [start]) (by simp [start])
      cases ys with
      | nil =>
        rw [hempty.mpr ⟨hnone, rfl⟩] at hfull
        cases hfull
      | cons y ys =>
        refine ⟨before.render, by rw [hstart, String.empty_append], ?_⟩
        rw [hstart, String.empty_append]
        exact render_insert_first hnone y ys he
  refine ⟨⟨fun hsame => ?_, fun hblank => ?_⟩, hadded⟩
  · cases hfull : before.isEmpty with
    | true => rfl
    | false =>
      obtain ⟨post, hbefore, hafter⟩ := hadded hfull
      have hsize := congrArg String.utf8ByteSize (hafter.symm.trans (hsame.trans hbefore))
      have hterminator := mt String.utf8ByteSize_eq_zero_iff.mp
        m.style.lineEnding.terminator_ne_empty
      simp only [blank, String.utf8ByteSize_append] at hsize
      omega
  · obtain ⟨hnone, hnil⟩ := hempty.mp hblank
    obtain ⟨rfl, rfl⟩ := List.append_eq_nil_iff.mp hnil
    have hbefore : before.render = "" :=
      render_of_silent hnone (by simp [before]) (by simp [before])
    have hafter : after.render = "" :=
      render_of_silent hnone (by simpa [after] using he) (by simp [after])
    rw [hafter, hbefore]

theorem render_insert_silent_last :
    let f : Function := { name := "f" }
    let i : Imports := {}
    let m : Module := { name := "m", doc := some "d" }
    i.element.Silent ∧
      ({ m with body := [f.element] } : Module).render =
        "\"\"\"d\"\"\"\n\n\ndef f():\n    pass\n" ∧
      ({ m with body := [f.element, i.element] } : Module).render ≠
        ({ m with body := [f.element] } : Module).render ∧
      ∃ post, ({ m with body := [f.element] } : Module).render =
          ({ m with body := [f.element] } : Module).render ++ post ∧
        ({ m with body := [f.element, i.element] } : Module).render =
          ({ m with body := [f.element] } : Module).render ++ "\n\n" ++ post := by
  intro f i m
  have hi : i.element.Silent := .imports rfl
  obtain ⟨hsame, hadded⟩ := m.render_insert_silent [f.element] [] hi
  have hfull : ({ m with body := [f.element] } : Module).isEmpty = false := rfl
  have hdiffers : true ≠ false := by decide
  exact ⟨hi, by decide +kernel, fun he => hdiffers ((hsame.mp he).symm.trans hfull), hadded hfull⟩

theorem silent_first_leaves_lines :
    let f : Function := { name := "f" }
    let m : Module := { name := "m" }
    Element.empty.Silent ∧
      ({ m with body := [f.element] } : Module).render = "def f():\n    pass\n" ∧
      ({ m with body := [.empty, f.element] } : Module).render = "\n\ndef f():\n    pass\n" :=
  ⟨.absent, by decide +kernel, by decide +kernel⟩

end Module

end Stencil
