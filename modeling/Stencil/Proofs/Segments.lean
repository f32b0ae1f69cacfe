import Stencil.Proofs.Layout

/-! A writer against a model of whole lines. A run is cut into segments, and each of them ends
with a line feed, with a reset, or with the run. A segment is indented once, for the depth at
its first text that is not empty, and a segment without such a text is not indented. -/

namespace Stencil

variable {σ ε : Type}

inductive Operation where
  | write (s : String)
  | writeLine (s : String)
  | lineFeed
  | indent (levels : Nat)
  | dedent (levels : Nat)
  | reset
  | block (inner : List Operation)

mutual

def Operation.element : Operation → Element
  | .write s => .text s
  | .writeLine s => .line s
  | .lineFeed => .lineFeed
  | .indent levels => .indent levels
  | .dedent levels => .dedent levels
  | .reset => .reset
  | .block inner => .indented (Operation.elements inner)

def Operation.elements : List Operation → List Element
  | [] => []
  | op :: ops => op.element :: Operation.elements ops

end

/-- What happens to the text in a run. A write comes with the depth at its moment. -/
inductive Event where
  | write (depth : Nat) (s : String)
  | lineFeed
  | reset

structure Trace where
  events : List Event
  depth : Nat

def Trace.append (t u : Trace) : Trace where
  events := t.events ++ u.events
  depth := u.depth

mutual

def Operation.trace : Operation → Nat → Trace
  | .write s, depth => ⟨[.write depth s], depth⟩
  | .writeLine s, depth => ⟨[.write depth s, .lineFeed], depth⟩
  | .lineFeed, depth => ⟨[.lineFeed], depth⟩
  | .indent levels, depth => ⟨[], min (depth + levels) maxDepth⟩
  | .dedent levels, depth => ⟨[], depth - levels⟩
  | .reset, _ => ⟨[.reset], 0⟩
  | .block inner, depth =>
    let within := Operation.traceAll inner (min (depth + 1) maxDepth)
    ⟨within.events, within.depth - 1⟩

def Operation.traceAll : List Operation → Nat → Trace
  | [], depth => ⟨[], depth⟩
  | op :: ops, depth => (op.trace depth).append (Operation.traceAll ops (op.trace depth).depth)

end

/-- The writes between two ends, and whether a line feed is the end. -/
structure Segment where
  writes : List (Nat × String) := []
  fed : Bool := false

namespace Segment

def opening? (segment : Segment) : Option (Nat × String) :=
  segment.writes.find? fun w => w.2 ≠ ""

def shown (unit terminator : String) (segment : Segment) : String :=
  (match segment.opening? with
    | some (depth, _) => repeated unit depth ++ String.join (segment.writes.map Prod.snd)
    | none => "")
  ++ if segment.fed then terminator else ""

def ending (terminator : String) (segment : Segment) : List String :=
  if segment.fed then [terminator] else []

/-- The same as is shown, text by text. -/
def appends (unit terminator : String) (segment : Segment) : List String :=
  (match segment.opening? with
    | some (depth, _) =>
      List.replicate depth unit ++ (segment.writes.map Prod.snd).filter fun s => s ≠ ""
    | none => [])
  ++ segment.ending terminator

end Segment

def Segment.add (depth : Nat) (s : String) (segment : Segment) : Segment :=
  { segment with writes := (depth, s) :: segment.writes }

/-- The first segment, and those after it. -/
def cut : List Event → Segment × List Segment
  | [] => ({}, [])
  | .write depth s :: events => ((cut events).1.add depth s, (cut events).2)
  | .lineFeed :: events => ({ fed := true }, (cut events).1 :: (cut events).2)
  | .reset :: events => ({}, (cut events).1 :: (cut events).2)

def Event.segments (events : List Event) : List Segment :=
  (cut events).1 :: (cut events).2

theorem join_filter_ne_empty (texts : List String) :
    String.join (texts.filter fun s => s ≠ "") = String.join texts := by
  induction texts with
  | nil => rfl
  | cons s texts ih =>
    by_cases hs : s = ""
    · simp [hs, ← ih]
    · simp [hs, ← ih]

theorem Segment.join_appends (unit terminator : String) (segment : Segment) :
    String.join (segment.appends unit terminator) = segment.shown unit terminator := by
  have hend : String.join (segment.ending terminator) =
      if segment.fed then terminator else "" := by
    unfold ending
    cases segment.fed <;> simp
  unfold appends shown
  rw [String.join_append, hend]
  cases segment.opening? with
  | none => rfl
  | some w => rw [String.join_append, join_filter_ne_empty]; rfl

theorem join_flatMap_appends (unit terminator : String) (segments : List Segment) :
    String.join (segments.flatMap (Segment.appends unit terminator)) =
      String.join (segments.map (Segment.shown unit terminator)) := by
  induction segments with
  | nil => rfl
  | cons segment segments ih =>
    rw [List.flatMap_cons, String.join_append, ih, Segment.join_appends, List.map_cons,
      String.join_cons]

namespace Segment

variable (unit terminator : String) (depth : Nat) (segment : Segment)

@[simp] theorem writes_add (s : String) :
    (segment.add depth s).writes = (depth, s) :: segment.writes :=
  rfl

@[simp] theorem ending_add (s : String) :
    (segment.add depth s).ending terminator = segment.ending terminator :=
  rfl

@[simp] theorem opening?_add_empty : (segment.add depth "").opening? = segment.opening? := by
  simp [opening?]

theorem opening?_add {s : String} (hs : s ≠ "") :
    (segment.add depth s).opening? = some (depth, s) := by
  simp [opening?, hs]

@[simp] theorem appends_add_empty :
    (segment.add depth "").appends unit terminator = segment.appends unit terminator := by
  unfold appends
  rw [opening?_add_empty]
  simp

theorem appends_add {s : String} (hs : s ≠ "") :
    (segment.add depth s).appends unit terminator = List.replicate depth unit ++ s ::
      (segment.writes.map Prod.snd).filter (fun s => s ≠ "") ++ segment.ending terminator := by
  unfold appends
  rw [opening?_add depth segment hs]
  simp [hs]

end Segment

namespace Event

def startAfter (start : Bool) : Event → Bool
  | .write _ s => start && s = ""
  | .lineFeed => true
  | .reset => true

def texts (unit terminator : String) (start : Bool) : Event → List String
  | .write depth s =>
    if s = "" then [] else (if start then List.replicate depth unit else []) ++ [s]
  | .lineFeed => [terminator]
  | .reset => []

def text (terminator : String) : Event → String
  | .write _ s => s
  | .lineFeed => terminator
  | .reset => ""

end Event

/-- The texts offered in a run, by the event and the start of the line alone. -/
def offered (unit terminator : String) : Bool → List Event → List String
  | _, [] => []
  | start, event :: events =>
    event.texts unit terminator start ++ offered unit terminator (event.startAfter start) events

theorem offered_append (unit terminator : String) (start : Bool) (es fs : List Event) :
    offered unit terminator start (es ++ fs) = offered unit terminator start es
      ++ offered unit terminator (es.foldl Event.startAfter start) fs := by
  induction es generalizing start with
  | nil => rfl
  | cons event es ih =>
    rw [List.cons_append, offered, ih, ← List.append_assoc]
    rfl

theorem offered_eq (unit terminator : String) (events : List Event) :
    offered unit terminator true events =
      (Event.segments events).flatMap (Segment.appends unit terminator) ∧
    offered unit terminator false events =
      ((cut events).1.writes.map Prod.snd).filter (fun s => s ≠ "")
        ++ (cut events).1.ending terminator
        ++ (cut events).2.flatMap (Segment.appends unit terminator) := by
  -- both starts at once: a write moves to the middle of a line, an end goes back to its start
  induction events with
  | nil => simp [offered, Event.segments, cut, Segment.appends, Segment.opening?, Segment.ending]
  | cons event events ih =>
    obtain ⟨htrue, hfalse⟩ := ih
    cases event with
    | write depth s =>
      by_cases hs : s = ""
      · subst hs
        refine ⟨?_, ?_⟩
        · simpa [offered, Event.texts, Event.startAfter, Event.segments, cut] using htrue
        · simpa [offered, Event.texts, Event.startAfter, cut] using hfalse
      · refine ⟨?_, ?_⟩
        · simp [offered, Event.texts, Event.startAfter, hs, hfalse, Event.segments, cut,
            Segment.appends_add]
        · simp [offered, Event.texts, Event.startAfter, hs, hfalse, cut]
    | lineFeed =>
      have hnext : offered unit terminator true (.lineFeed :: events) =
          terminator :: (Event.segments events).flatMap (Segment.appends unit terminator) := by
        rw [← htrue]
        rfl
      exact ⟨hnext, hnext⟩
    | reset =>
      have hnext : offered unit terminator true (.reset :: events) =
          (Event.segments events).flatMap (Segment.appends unit terminator) := by
        rw [← htrue]
        rfl
      exact ⟨hnext, hnext⟩

/-- The line is at its start if the last segment has no text yet. -/
theorem foldl_startAfter (start : Bool) (events : List Event) :
    events.foldl Event.startAfter start =
      match (cut events).2.getLast? with
      | some last => last.opening?.isNone
      | none => start && (cut events).1.opening?.isNone := by
  induction events generalizing start with
  | nil => simp [cut, Segment.opening?]
  | cons event events ih =>
    rw [List.foldl_cons, ih]
    cases event with
    | write depth s =>
      simp only [cut, Event.startAfter]
      by_cases hs : s = ""
      · simp [hs]
      · simp [hs, Segment.opening?_add]
    | lineFeed =>
      rw [cut, List.getLast?_cons]
      cases (cut events).2.getLast? <;> simp [Event.startAfter]
    | reset =>
      rw [cut, List.getLast?_cons]
      cases (cut events).2.getLast? <;> simp [Event.startAfter]

theorem foldl_startAfter_true (events : List Event) :
    events.foldl Event.startAfter true =
      (Event.segments events).getLast?.all (·.opening?.isNone) := by
  rw [foldl_startAfter, Event.segments, List.getLast?_cons]
  cases (cut events).2.getLast? <;> simp

def Writer.after (w : Writer Unit) (t : Trace) : Writer Unit :=
  { w with
    depth := t.depth
    atLineStart := t.events.foldl Event.startAfter w.atLineStart
    written := w.written + (String.join (t.events.map (Event.text w.terminator))).utf8ByteSize }

theorem Writer.after_append (w : Writer Unit) (t u : Trace) :
    (w.after t).after u = w.after (t.append u) := by
  simp [Writer.after, Trace.append, String.join_append, String.utf8ByteSize_append, Nat.add_assoc]

/-- The writer `w`, before any sink, offers the texts of the trace. -/
def Traces (out : Sink σ ε) (w : Writer Unit) (target : σ) (t : Trace)
    (o : Outcome ε (Writer σ)) : Prop :=
  Offers out (offered w.unit w.terminator w.atLineStart t.events) target (w.after t) o

theorem Traces.andThen {out : Sink σ ε} {w : Writer Unit} {target : σ} {t u : Trace}
    {o : Outcome ε (Writer σ)} {next : Writer σ → Outcome ε (Writer σ)}
    (ho : Traces out w target t o)
    (hn : ∀ last, Traces out (w.after t) last u (next ((w.after t).on last))) :
    Traces out w target (t.append u) (o.andThen next) := by
  have h := Offers.andThen ho hn
  rw [Writer.after_append] at h
  unfold Traces
  rw [Trace.append, offered_append]
  exact h

section Steps

variable (out : Sink σ ε) (w : Writer Unit) (target : σ)

theorem Writer.offers_pad (levels : Nat) :
    Offers out (List.replicate levels w.unit) target w ((w.on target).pad out levels) := by
  induction levels generalizing target with
  | zero => exact offers_done out w target
  | succ levels ih => exact (Writer.offers_offer out w.unit w target).andThen fun last => ih last

theorem Writer.offers_openLine :
    Offers out (if w.atLineStart then List.replicate w.depth w.unit else []) target
      { w with atLineStart := false } ((w.on target).openLine out) := by
  unfold Writer.openLine
  have hon : (w.on target).atLineStart = w.atLineStart := rfl
  rw [hon]
  by_cases hs : w.atLineStart = true
  · have hpad := w.offers_pad out target w.depth
    rw [if_pos hs, if_pos hs, ← List.append_nil (List.replicate w.depth w.unit)]
    exact hpad.andThen fun last => offers_done out { w with atLineStart := false } last
  · have hfalse : w.atLineStart = false := by simpa using hs
    have hw : { w with atLineStart := false } = w := by rw [← hfalse]
    rw [if_neg hs, if_neg hs, hw]
    exact offers_done out w target

theorem Writer.offers_offerCounted (s : String) :
    Offers out [s] target { w with written := w.written + s.utf8ByteSize }
      ((w.on target).offerCounted out s) := by
  have hoffer := Writer.offers_offer out s w target
  rw [← List.append_nil [s]]
  exact hoffer.andThen fun last =>
    offers_done out { w with written := w.written + s.utf8ByteSize } last

theorem Writer.traces_write (s : String) :
    Traces out w target ⟨[.write w.depth s], w.depth⟩ ((w.on target).write out s) := by
  unfold Writer.write
  by_cases hs : s = ""
  · have h := offers_done out w target
    simpa [Traces, offered, Event.texts, Writer.after, Event.startAfter, Event.text, hs] using h
  · have hempty : s.isEmpty = false := by simpa using hs
    have h := (w.offers_openLine out target).andThen fun last =>
      Writer.offers_offerCounted out { w with atLineStart := false } last s
    simpa [Traces, offered, Event.texts, Writer.after, Event.startAfter, Event.text, hs, hempty]
      using h

theorem Writer.traces_lineFeed :
    Traces out w target ⟨[.lineFeed], w.depth⟩ ((w.on target).lineFeed out) := by
  let fed : Writer Unit :=
    { w with written := w.written + w.terminator.utf8ByteSize, atLineStart := true }
  have hcounted := w.offers_offerCounted out target w.terminator
  have h : Offers out ([w.terminator] ++ []) target fed ((w.on target).lineFeed out) :=
    hcounted.andThen fun last => offers_done out fed last
  simpa [Traces, offered, Event.texts, Writer.after, Event.startAfter, Event.text] using h

theorem Writer.traces_depth (depth : Nat) :
    Traces out w target ⟨[], depth⟩ (.done { w.on target with depth := depth }) := by
  have hw : w.after ⟨[], depth⟩ = { w with depth := depth } := by simp [Writer.after]
  unfold Traces
  rw [hw]
  exact offers_done out { w with depth := depth } target

theorem Writer.traces_reset :
    Traces out w target ⟨[.reset], 0⟩ (.done (w.on target).reset) := by
  have hw : w.after ⟨[.reset], 0⟩ = w.reset := by
    simp [Writer.after, Writer.reset, Event.startAfter, Event.text]
  unfold Traces
  rw [hw]
  exact offers_done out w.reset target

end Steps

section Runs

variable {out : Sink σ ε} {flush : Writer σ → Outcome ε (Writer σ)}

mutual

/-- What an operation offers is read off its trace, for every sink and from any state. -/
theorem Operation.traces_run :
    (op : Operation) → (w : Writer Unit) → (target : σ) →
      Traces out w target (op.trace w.depth) (op.element.run out flush (w.on target))
  | .write s, w, target => w.traces_write out target s
  | .writeLine s, w, target => by
    have hfeed : ∀ (v : Writer Unit) last, Traces out v last ⟨[.lineFeed], v.depth⟩
        (Element.runAll out flush [.lineFeed] (v.on last)) := fun v last =>
      (v.traces_lineFeed out last).andThen fun last => Writer.traces_depth out _ last v.depth
    exact (w.traces_write out target s).andThen (hfeed _)
  | .lineFeed, w, target => w.traces_lineFeed out target
  | .indent levels, w, target => w.traces_depth out target (min (w.depth + levels) maxDepth)
  | .dedent levels, w, target => w.traces_depth out target (w.depth - levels)
  | .reset, w, target => w.traces_reset out target
  | .block inner, w, target =>
    (Operation.traces_runAll inner (w.indent 1) target).map (fun _ => rfl) fun _ => rfl

theorem Operation.traces_runAll :
    (ops : List Operation) → (w : Writer Unit) → (target : σ) →
      Traces out w target (Operation.traceAll ops w.depth)
        (Element.runAll out flush (Operation.elements ops) (w.on target))
  | [], w, target => w.traces_depth out target w.depth
  | op :: ops, w, target =>
    (Operation.traces_run op w target).andThen fun last => Operation.traces_runAll ops _ last

end

end Runs

/-- The sink refuses nothing, and holds the text that it was given. -/
def Sink.Holds (out : Sink σ ε) (text : σ → String) : Prop :=
  ∀ s target, ∃ last, out.append s target = .done last ∧ text last = text target ++ s

theorem Sink.Holds.appendAll {out : Sink σ ε} {text : σ → String} (h : out.Holds text)
    (texts : List String) (target : σ) :
    ∃ last, out.appendAll texts target = .done last ∧
      text last = text target ++ String.join texts := by
  induction texts generalizing target with
  | nil => exact ⟨target, rfl, by simp⟩
  | cons s rest ih =>
    obtain ⟨next, hs, hnext⟩ := h s target
    obtain ⟨last, hl, hlast⟩ := ih next
    refine ⟨last, by simpa [Sink.appendAll, hs] using hl, ?_⟩
    rw [hlast, hnext, String.join_cons, String.append_assoc]

theorem Traces.done {out : Sink σ ε} {text : σ → String} {w : Writer Unit} {target : σ}
    {t : Trace} {o : Outcome ε (Writer σ)} (h : Traces out w target t o) (hout : out.Holds text) :
    ∃ last, o = .done ((w.after t).on last) ∧
      out.appendAll (offered w.unit w.terminator w.atLineStart t.events) target = .done last ∧
      text last = text target
        ++ String.join (offered w.unit w.terminator w.atLineStart t.events) := by
  obtain ⟨last, hl, htext⟩ := hout.appendAll
    (offered w.unit w.terminator w.atLineStart t.events) target
  exact ⟨last, h.done_iff.mp hl, hl, htext⟩

theorem Operation.traces_emit (ops : List Operation) (out : Sink σ ε) (w : Writer σ) :
    Traces out (w.on ()) w.target (Operation.traceAll ops w.depth)
      ((Element.seq (Operation.elements ops)).emit out w) := by
  obtain ⟨flush, he⟩ := (Element.seq (Operation.elements ops)).emit_eq_run out w
  rw [he]
  exact Operation.traces_runAll ops (w.on ()) w.target

section Pieces

variable (unit terminator : String) (depth : Nat)

theorem Operation.traceAll_writes (pieces : List String) :
    Operation.traceAll (pieces.map .write) depth = ⟨pieces.map (.write depth), depth⟩ := by
  induction pieces with
  | nil => rfl
  | cons s pieces ih =>
    simp only [List.map_cons, Operation.traceAll, Operation.trace, ih]
    rfl

theorem foldl_startAfter_writes (start : Bool) (pieces : List String) :
    (pieces.map (Event.write depth)).foldl Event.startAfter start =
      (Event.write depth (String.join pieces)).startAfter start := by
  induction pieces generalizing start with
  | nil => simp [Event.startAfter]
  | cons s pieces ih =>
    simp only [List.map_cons, List.foldl_cons, ih, Event.startAfter, String.join_cons,
      String.append_eq_empty_iff, Bool.decide_and, Bool.and_assoc]

theorem join_offered_writes (start : Bool) (pieces : List String) :
    String.join (offered unit terminator start (pieces.map (.write depth))) =
      String.join ((Event.write depth (String.join pieces)).texts unit terminator start) := by
  induction pieces generalizing start with
  | nil => simp [offered, Event.texts]
  | cons s pieces ih =>
    simp only [List.map_cons, offered, String.join_append, ih]
    by_cases hs : s = ""
    · simp [Event.texts, Event.startAfter, hs]
    · have hrest : String.join
          ((Event.write depth (String.join pieces)).texts unit terminator false) =
            String.join pieces := by
        by_cases hp : String.join pieces = "" <;> simp [Event.texts, hp]
      have hkeep : (Event.write depth s).startAfter start = false := by
        simp [Event.startAfter, hs]
      rw [hkeep, hrest]
      simp [Event.texts, hs, String.append_assoc]

end Pieces

theorem Writer.after_writes (w : Writer Unit) (pieces : List String) :
    w.after ⟨pieces.map (.write w.depth), w.depth⟩ =
      w.after ⟨[.write w.depth (String.join pieces)], w.depth⟩ := by
  have htext : (pieces.map (Event.write w.depth)).map (Event.text w.terminator) = pieces := by
    simp [Function.comp_def, Event.text]
  simp only [Writer.after, foldl_startAfter_writes, htext]
  simp [Event.text]

/-- A fresh writer shows the segments of a run one after the other, and it is left at the
depth of the run, at the start of a line unless the last segment has text. From any state, a
text in pieces is the same as the text at once. -/
theorem emit_segments {out : Sink σ ε} {text : σ → String} (hout : out.Holds text)
    (unit terminator : String) (target : σ) (ops : List Operation) :
    (∃ v, (Element.seq (Operation.elements ops)).emit out
          { unit := unit, terminator := terminator, target := target } = .done v ∧
        text v.target = text target ++ String.join
          ((Event.segments (Operation.traceAll ops 0).events).map (Segment.shown unit terminator)) ∧
        out.appendAll ((Event.segments (Operation.traceAll ops 0).events).flatMap
          (Segment.appends unit terminator)) target = .done v.target ∧
        v.depth = (Operation.traceAll ops 0).depth ∧
        v.atLineStart =
          (Event.segments (Operation.traceAll ops 0).events).getLast?.all (·.opening?.isNone)) ∧
      ∀ (pieces : List String) (w : Writer σ), ∃ v u,
        (Element.seq (Operation.elements (pieces.map .write))).emit out w = .done v ∧
        (Element.seq (Operation.elements [.write (String.join pieces)])).emit out w = .done u ∧
        text v.target = text u.target ∧ v.on () = u.on () := by
  refine ⟨?_, fun pieces w => ?_⟩
  · have hrun := Operation.traces_emit ops out
      { unit := unit, terminator := terminator, target := target }
    obtain ⟨last, hdone, hall, htext⟩ := hrun.done hout
    have heq := (offered_eq unit terminator (Operation.traceAll ops 0).events).1
    refine ⟨_, hdone, ?_, ?_, rfl, ?_⟩
    · rw [← join_flatMap_appends, ← heq]
      exact htext
    · rw [← heq]
      exact hall
    · exact foldl_startAfter_true (Operation.traceAll ops 0).events
  · have hpieces := Operation.traces_emit (pieces.map .write) out w
    have honce := Operation.traces_emit [.write (String.join pieces)] out w
    rw [Operation.traceAll_writes] at hpieces
    obtain ⟨last, hdone, -, htext⟩ := hpieces.done hout
    obtain ⟨last', hdone', -, htext'⟩ := honce.done hout
    refine ⟨_, _, hdone, hdone', ?_, ?_⟩
    · show text last = text last'
      rw [htext, htext', join_offered_writes]
      simp [Operation.traceAll, Operation.trace, Trace.append, offered]
    · exact (w.on ()).after_writes pieces

theorem emit_segments_reset_in_block :
    let ops : List Operation :=
      [.indent 2, .write "", .dedent 1, .write "a", .indent 5, .write "b", .lineFeed, .lineFeed,
        .block [.write "c", .reset, .write "d", .block [.writeLine "e", .write "f"]],
        .write "", .write "g"]
    (Sink.text : Sink String Empty).Holds id ∧
      ∃ v, (Element.seq (Operation.elements ops)).emit (Sink.text : Sink String Empty)
          { unit := "-", terminator := "/", target := "" } = .done v ∧
        v.target = "-ab//-------cde/-fg" ∧ v.depth = 0 ∧ v.atLineStart = false := by
  intro ops
  have hout : (Sink.text : Sink String Empty).Holds id := fun s target => ⟨target ++ s, rfl, rfl⟩
  obtain ⟨⟨v, hv, htext, -, hdepth, hstart⟩, -⟩ := emit_segments hout "-" "/" "" ops
  refine ⟨hout, v, hv, ?_, ?_, ?_⟩
  · rw [id] at htext
    rw [htext]
    decide +kernel
  · rw [hdepth]
    decide +kernel
  · rw [hstart]
    decide +kernel

end Stencil
