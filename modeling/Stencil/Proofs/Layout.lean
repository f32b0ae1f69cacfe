import Stencil.Proofs.Built
import Stencil.Proofs.Offered

/-! The layout of an element: lines with their depths, counted from the depth at which the
element is emitted. The layout is read off the element alone. Unit, terminator, depth and
all that a writer did before enter only when the lines are put down. -/

namespace Stencil

variable {σ ε : Type}

structure Line where
  level : Nat
  text : String
deriving DecidableEq

/-- Lines that were ended, and the one that was not. An open line has text on it. -/
structure Page where
  ended : List Line := []
  current : Option Line := none
  filled : ∀ line ∈ current, line.text ≠ "" := by simp
deriving DecidableEq

namespace Page

/-- Text goes on with the open line, or opens one at the given level. -/
def write (level : Nat) (s : String) (page : Page) : Page :=
  if hs : s = "" then page
  else match page.current with
    | none => { page with current := some ⟨level, s⟩, filled := by simpa using hs }
    | some line =>
      { page with current := some ⟨line.level, line.text ++ s⟩, filled := by simp [hs] }

def lineFeed (page : Page) : Page where
  ended := page.ended ++ [page.current.getD ⟨0, ""⟩]

def freshLine (page : Page) : Page :=
  if page.current.isNone then page else page.lineFeed

def blank : Page :=
  {}

@[simp] theorem ended_blank : blank.ended = [] :=
  rfl

@[simp] theorem current_blank : blank.current = none :=
  rfl

end Page

mutual

/-- What an element at the given level adds to a page. -/
def Element.lay : Element → Nat → Page → Page
  | .text s, level, page => page.write level s
  | .lineFeed, _, page => page.lineFeed
  | .freshLine, _, page => page.freshLine
  | .seq parts, level, page => Element.layAll parts level page
  | .indented parts, level, page => Element.layAll parts (level + 1) page
  | .body children placeholder, level, page =>
    let inner := Element.layAll children (level + 1) page
    (if inner = page then placeholder.lay (level + 1) page else inner).freshLine
  | _, _, page => page

def Element.layAll : List Element → Nat → Page → Page
  | [], _, page => page
  | e :: es, level, page => Element.layAll es level (e.lay level page)

end

/-- The layout of an element that begins a line. -/
def Element.page (e : Element) : Page :=
  e.lay 0 {}

def repeated (s : String) (count : Nat) : String :=
  String.join (List.replicate count s)

/-- A line as it is put down; an empty one is not indented. -/
def Line.shown (unit : String) (depth : Nat) (line : Line) : String :=
  if line.text = "" then "" else repeated unit (depth + line.level) ++ line.text

/-- The terminator follows every line but an open one. -/
def Page.shown (unit terminator : String) (depth : Nat) (page : Page) : String :=
  String.join (page.ended.map fun line => line.shown unit depth ++ terminator)
    ++ (page.current.map (Line.shown unit depth)).getD ""

/-- The bytes of the texts and the terminators, without indentation. -/
def Page.size (terminator : String) (page : Page) : Nat :=
  (page.shown "" terminator 0).utf8ByteSize

@[simp] theorem repeated_zero (s : String) : repeated s 0 = "" :=
  rfl

theorem repeated_succ (s : String) (count : Nat) :
    repeated s (count + 1) = s ++ repeated s count := by
  simp [repeated, List.replicate_succ]

@[simp] theorem repeated_empty (count : Nat) : repeated "" count = "" := by
  induction count with
  | zero => rfl
  | succ count ih => rw [repeated_succ, ih, String.empty_append]

namespace Page

variable {unit terminator : String} {depth : Nat}

theorem shown_write (page : Page) (level : Nat) {s : String} (hs : s ≠ "") :
    (page.write level s).shown unit terminator depth = page.shown unit terminator depth
      ++ (if page.current.isNone then repeated unit (depth + level) else "") ++ s := by
  cases hc : page.current with
  | none => simp [write, shown, Line.shown, hc, hs, String.append_assoc]
  | some line =>
    have hline : line.text ≠ "" := page.filled line hc
    simp [write, shown, Line.shown, hc, hs, hline, String.append_assoc]

theorem shown_lineFeed (page : Page) :
    page.lineFeed.shown unit terminator depth = page.shown unit terminator depth ++ terminator := by
  cases hc : page.current with
  | none => simp [lineFeed, shown, Line.shown, hc, String.join_append]
  | some line => simp [lineFeed, shown, hc, String.join_append, String.append_assoc]

theorem isNone_current_write (page : Page) (level : Nat) {s : String} (hs : s ≠ "") :
    (page.write level s).current.isNone = false := by
  cases hc : page.current <;> simp [write, hc, hs]

theorem size_write (page : Page) (level : Nat) (s : String) :
    (page.write level s).size terminator = page.size terminator + s.utf8ByteSize := by
  by_cases hs : s = ""
  · simp [write, hs]
  · rw [size, shown_write page level hs]
    simp [size, String.utf8ByteSize_append]

theorem size_lineFeed (page : Page) :
    page.lineFeed.size terminator = page.size terminator + terminator.utf8ByteSize := by
  simp [size, shown_lineFeed, String.utf8ByteSize_append]

/-- Nothing was added, or bytes were. -/
def Extends (terminator : String) (before after : Page) : Prop :=
  after = before ∨ before.size terminator < after.size terminator

theorem Extends.trans {p q r : Page} (h : Extends terminator p q) (h' : Extends terminator q r) :
    Extends terminator p r := by
  rcases h with rfl | h
  · exact h'
  · rcases h' with rfl | h'
    · exact .inr h
    · exact .inr (Nat.lt_trans h h')

theorem extends_write (page : Page) (level : Nat) (s : String) :
    Extends terminator page (page.write level s) := by
  by_cases hs : s = ""
  · exact .inl (by simp [write, hs])
  · have := mt String.utf8ByteSize_eq_zero_iff.mp hs
    exact .inr (by rw [size_write]; omega)

theorem extends_lineFeed (ht : terminator ≠ "") (page : Page) :
    Extends terminator page page.lineFeed := by
  have := mt String.utf8ByteSize_eq_zero_iff.mp ht
  exact .inr (by rw [size_lineFeed]; omega)

theorem extends_freshLine (ht : terminator ≠ "") (page : Page) :
    Extends terminator page page.freshLine := by
  unfold freshLine
  split
  · exact .inl rfl
  · exact extends_lineFeed ht page

end Page

section Growth

variable {terminator : String}

theorem Element.extends_layAll {es : List Element} (level : Nat)
    (h : ∀ e ∈ es, ∀ page : Page, page.Extends terminator (e.lay level page)) (page : Page) :
    page.Extends terminator (Element.layAll es level page) := by
  induction es generalizing page with
  | nil => exact .inl rfl
  | cons e es ih =>
    exact (h e (by simp) page).trans (ih (fun a ha => h a (by simp [ha])) (e.lay level page))

theorem Element.lay_pass (level : Nat) (page : Page) :
    Element.pass.lay level page = (page.write level "pass").lineFeed :=
  rfl

/-- So bytes tell whether the children of a body have added anything. -/
theorem Element.Plain.extends_lay {e : Element} (h : e.Plain) (ht : terminator ≠ "")
    (level : Nat) (page : Page) : page.Extends terminator (e.lay level page) := by
  induction h generalizing level page with
  | text s => exact page.extends_write level s
  | lineFeed => exact page.extends_lineFeed ht
  | freshLine => exact page.extends_freshLine ht
  | seq _ ih => exact extends_layAll level (fun e he => ih e he level) page
  | indented _ ih => exact extends_layAll (level + 1) (fun e he => ih e he (level + 1)) page
  | body _ ih =>
    have hin := extends_layAll (level + 1) (fun e he => ih e he (level + 1)) page
    simp only [Element.lay]
    split
    · rw [lay_pass]
      exact ((page.extends_write (level + 1) "pass").trans
        (Page.extends_lineFeed ht _)).trans (Page.extends_freshLine ht _)
    · exact hin.trans (Page.extends_freshLine ht _)

end Growth

section Putting

/-- A writer that began as `w` and stands `level` deeper once it has put down the page. -/
def Page.onto (page : Page) (w : Writer String) (level : Nat) : Writer String :=
  { w with
    depth := w.depth + level
    atLineStart := page.current.isNone
    written := w.written + page.size w.terminator
    target := w.target ++ page.shown w.unit w.terminator w.depth }

theorem Writer.pad_text (levels : Nat) (w : Writer String) :
    w.pad (Sink.text : Sink String ε) levels =
      .done { w with target := w.target ++ repeated w.unit levels } := by
  induction levels generalizing w with
  | zero => simp [pad]
  | succ levels ih =>
    simp only [pad, offer, Sink.text, Outcome.map_done, Outcome.andThen_done] at ih ⊢
    rw [ih, repeated_succ, String.append_assoc]

theorem Writer.openLine_onto (page : Page) (w : Writer String) (level : Nat) :
    (page.onto w level).openLine (Sink.text : Sink String ε) =
      .done { page.onto w level with
        atLineStart := false
        target := (page.onto w level).target
          ++ if page.current.isNone then repeated w.unit (w.depth + level) else "" } := by
  unfold Writer.openLine
  cases hc : page.current with
  | none => simp [Page.onto, hc, Writer.pad_text]
  | some line => simp [Page.onto, hc]

theorem Writer.write_onto (page : Page) (w : Writer String) (level : Nat) (s : String) :
    (page.onto w level).write (Sink.text : Sink String ε) s =
      .done ((page.write level s).onto w level) := by
  by_cases hs : s = ""
  · simp [Writer.write, Page.write, hs]
  · have hempty : s.isEmpty = false := by simpa using hs
    simp only [Writer.write, hempty, Bool.false_eq_true, if_false, Writer.openLine_onto,
      Outcome.andThen_done]
    simp only [Writer.offerCounted, Writer.offer, Sink.text, Outcome.map_done,
      Outcome.andThen_done, Page.onto, Page.shown_write page level hs,
      Page.isNone_current_write page level hs, Page.size_write, String.append_assoc,
      Nat.add_assoc]

theorem Writer.lineFeed_onto (page : Page) (w : Writer String) (level : Nat) :
    (page.onto w level).lineFeed (Sink.text : Sink String ε) =
      .done (page.lineFeed.onto w level) := by
  simp only [Writer.lineFeed, Writer.offerCounted, Writer.offer, Sink.text, Outcome.map_done,
    Outcome.andThen_done, Page.onto, Page.shown_lineFeed, Page.size_lineFeed,
    String.append_assoc, Nat.add_assoc]
  rfl

theorem Writer.freshLine_onto (page : Page) (w : Writer String) (level : Nat) :
    (page.onto w level).freshLine (Sink.text : Sink String ε) =
      .done (page.freshLine.onto w level) := by
  unfold Writer.freshLine Page.freshLine
  have hstart : (page.onto w level).atLineStart = page.current.isNone := rfl
  rw [hstart]
  split
  · rfl
  · exact Writer.lineFeed_onto page w level

variable {flush : Writer String → Outcome ε (Writer String)}

theorem Element.runAll_onto {es : List Element} {w : Writer String} {level : Nat}
    (h : ∀ e ∈ es, ∀ page : Page, e.run Sink.text flush (page.onto w level) =
      .done ((e.lay level page).onto w level)) (page : Page) :
    Element.runAll Sink.text flush es (page.onto w level) =
      .done ((Element.layAll es level page).onto w level) := by
  induction es generalizing page with
  | nil => rfl
  | cons e es ih =>
    simp only [Element.runAll, Element.layAll, h e (by simp) page, Outcome.andThen_done]
    exact ih (fun a ha => h a (by simp [ha])) (e.lay level page)

theorem Page.indent_onto (page : Page) (w : Writer String) (level : Nat)
    (hd : w.depth + level + 1 ≤ maxDepth) :
    (page.onto w level).indent 1 = page.onto w (level + 1) := by
  have h : min (w.depth + level + 1) maxDepth = w.depth + (level + 1) := by omega
  simp only [Writer.indent, Page.onto, h]

theorem Page.dedent_onto (page : Page) (w : Writer String) (level : Nat) :
    (page.onto w (level + 1)).dedent 1 = page.onto w level :=
  rfl

/-- The writer chooses by bytes what the layout chooses by comparing pages. -/
theorem Page.written_onto_eq_iff {page inner : Page} {w : Writer String} (m n : Nat)
    (h : page.Extends w.terminator inner) :
    (inner.onto w m).written = (page.onto w n).written ↔ inner = page := by
  simp only [Page.onto]
  constructor
  · intro he
    rcases h with h | h
    · exact h
    · omega
  · rintro rfl
    rfl

theorem Element.pass_onto (page : Page) (w : Writer String) (level : Nat) :
    Element.pass.run Sink.text flush (page.onto w level) =
      .done ((Element.pass.lay level page).onto w level) := by
  simp only [Element.pass, Element.line, Element.run, Element.runAll, Writer.write_onto,
    Writer.lineFeed_onto, Outcome.andThen_done]
  rfl

theorem Element.body_onto {children : List Element} {w : Writer String} {level : Nat} {page : Page}
    (hd : w.depth + level + 1 ≤ maxDepth)
    (hrun : Element.runAll Sink.text flush children (page.onto w (level + 1)) =
      .done ((Element.layAll children (level + 1) page).onto w (level + 1)))
    (hext : page.Extends w.terminator (Element.layAll children (level + 1) page)) :
    (Element.body children .pass).run Sink.text flush (page.onto w level) =
      .done (((Element.body children .pass).lay level page).onto w level) := by
  simp only [Element.run, Element.lay, page.indent_onto w level hd, hrun, Outcome.andThen_done,
    Page.written_onto_eq_iff _ _ hext]
  split
  · next hsame =>
    simp only [hsame, Element.pass_onto, Outcome.map_done, Page.dedent_onto, Outcome.andThen_done]
    exact Writer.freshLine_onto _ w level
  · simp only [Outcome.map_done, Page.dedent_onto, Outcome.andThen_done]
    exact Writer.freshLine_onto _ w level

/-- Running a plain element puts down what it adds to the page, from anywhere on a line. -/
theorem Element.Plain.run_onto {e : Element} (h : e.Plain) {w : Writer String}
    (ht : w.terminator ≠ "") (level : Nat) (hd : w.depth + level + e.height ≤ maxDepth)
    (page : Page) :
    e.run Sink.text flush (page.onto w level) = .done ((e.lay level page).onto w level) := by
  induction h generalizing level page with
  | text s => exact Writer.write_onto page w level s
  | lineFeed => exact Writer.lineFeed_onto page w level
  | freshLine => exact Writer.freshLine_onto page w level
  | @seq parts _ ih =>
    apply Element.runAll_onto
    intro e he
    have hle := Element.height_le_heightAll he
    simp only [Element.height] at hd
    exact ih e he level (by omega)
  | @indented parts _ ih =>
    simp only [Element.height] at hd
    simp only [Element.run, page.indent_onto w level (by omega)]
    rw [Element.runAll_onto]
    · rfl
    · intro e he
      have hle := Element.height_le_heightAll he
      exact ih e he (level + 1) (by omega)
  | @body children hc ih =>
    rw [height_body_pass] at hd
    refine Element.body_onto (by omega) (Element.runAll_onto ?_ page) ?_
    · intro e he
      have hle := Element.height_le_heightAll he
      exact ih e he (level + 1) (by omega)
    · have hchildren := fun e he => (hc e he).extends_lay ht (level + 1)
      exact Element.extends_layAll (level + 1) hchildren page

theorem Element.Plain.emit_text {e : Element} (h : e.Plain) {w : Writer String}
    (hs : w.atLineStart = true) (ht : w.terminator ≠ "") (hd : w.depth + e.height ≤ maxDepth) :
    e.emit (Sink.text : Sink String ε) w = .done (e.page.onto w 0) := by
  have hw : ({} : Page).onto w 0 = w := by
    simp [Page.onto, Page.shown, Page.size, ← hs]
  obtain ⟨flush, he⟩ := e.emit_eq_run (Sink.text : Sink String ε) w
  have hrun : e.run Sink.text flush (({} : Page).onto w 0) = .done (e.page.onto w 0) :=
    h.run_onto ht 0 hd {}
  rw [hw] at hrun
  rw [he, hrun]

end Putting

theorem Sink.appendAll_text (texts : List String) (target : String) :
    (Sink.text : Sink String ε).appendAll texts target = .done (target ++ String.join texts) := by
  induction texts generalizing target with
  | nil => simp [Sink.appendAll]
  | cons s rest ih =>
    have h := ih (target ++ s)
    simp only [Sink.appendAll, Sink.text, Outcome.andThen_done, String.join_cons,
      ← String.append_assoc] at h ⊢
    exact h

theorem Sink.appendAll_done {out : Sink σ ε}
    (hout : ∀ s target, ∃ last, out.append s target = .done last) (texts : List String)
    (target : σ) : ∃ last, out.appendAll texts target = .done last := by
  induction texts generalizing target with
  | nil => exact ⟨target, rfl⟩
  | cons s rest ih =>
    obtain ⟨next, hs⟩ := hout s target
    obtain ⟨last, hl⟩ := ih next
    exact ⟨last, by simpa [Sink.appendAll, hs] using hl⟩

/-- The layout of a library element decides all that it appends from the start of a line.
The sink never refuses, and the terminator is not empty; whatever else the writer did
before does not matter. -/
theorem Element.Built.emit_layout {e : Element} (h : e.Built) (out : Sink σ ε)
    (hout : ∀ s target, ∃ last, out.append s target = .done last) (w : Writer σ)
    (hs : w.atLineStart = true) (ht : w.terminator ≠ "") (hd : w.depth + e.height ≤ maxDepth) :
    ∃ texts last, String.join texts = e.page.shown w.unit w.terminator w.depth ∧
      out.appendAll texts w.target = .done last ∧
      e.emit out w = .done { w with
        target := last
        atLineStart := e.page.current.isNone
        written := w.written + e.page.size w.terminator } := by
  obtain ⟨texts, after, hoffers⟩ := e.emit_offers (w.on ())
  obtain ⟨last, hl⟩ := Sink.appendAll_done hout texts w.target
  have htext : e.emit (Sink.text : Sink String ε) (w.on "") = .done (e.page.onto (w.on "") 0) :=
    h.plain.emit_text hs ht hd
  have hjoin := (hoffers String ε Sink.text "").done_iff.mp (Sink.appendAll_text texts "")
  have heq : after.on ("" ++ String.join texts) = e.page.onto (w.on "") 0 := by
    have h' := hjoin.symm.trans htext
    simpa using h'
  refine ⟨texts, last, ?_, hl, ?_⟩
  · simpa [Page.onto, Writer.on] using congrArg Writer.target heq
  · have hemit := (hoffers σ ε out w.target).done_iff.mp hl
    have hafter : after.on last = (e.page.onto (w.on "") 0).on last := by
      rw [← heq]
      rfl
    rw [hafter] at hemit
    exact hemit

theorem emit_layout_conditional :
    let c : Conditional :=
      { first := { condition := .stack ["x and", "y"] }, otherwise := some [.line "", .text "z"] }
    let w : Writer String :=
      { unit := "\t", terminator := "\r\n", depth := 1, written := 3, target := "old" }
    c.element.Built ∧ w.atLineStart = true ∧ w.terminator ≠ "" ∧
      w.depth + c.element.height ≤ maxDepth ∧
      ∃ texts last,
        String.join texts = "\tif x and\r\n\ty:\r\n\t\tpass\r\n\telse:\r\n\r\n\t\tz\r\n" ∧
        (Sink.text : Sink String Empty).appendAll texts w.target = .done last ∧
        c.element.emit (Sink.text : Sink String Empty) w = .done { w with
          target := last
          atLineStart := true
          written := 35 } := by
  intro c w
  have hc : c.element.Built := .conditional "if" c
    (by simp [c, Element.Built.stack]) (by simp [c])
    (by simp [c, Element.Built.line, Element.Built.text])
  have hd : w.depth + c.element.height ≤ maxDepth := by decide
  have hshown : c.element.page.shown w.unit w.terminator w.depth =
      "\tif x and\r\n\ty:\r\n\t\tpass\r\n\telse:\r\n\r\n\t\tz\r\n" := by decide +kernel
  have hsize : c.element.page.size w.terminator = 32 := by decide +kernel
  have hopen : c.element.page.current.isNone = true := by decide +kernel
  have h := hc.emit_layout (Sink.text : Sink String Empty) (fun s target => ⟨target ++ s, rfl⟩)
    w rfl (by decide) hd
  rw [hshown, hsize, hopen] at h
  exact ⟨hc, rfl, by decide, hd, h⟩

end Stencil
