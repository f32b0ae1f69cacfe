import Stencil.Proofs.Alone

/-! The text of a declared class. Its members are laid out one after the other, so a method reads
as the same function does one level deeper, and the placeholder stands alone or not at all. -/

namespace Stencil

variable {σ ε : Type} {unit terminator : String}

theorem Element.Closed.shown_page_of_lines {e : Element} (hc : e.Closed) {s : String}
    (hs : s ≠ "") (h : e.lines 0 = [⟨0, s⟩]) :
    e.page.shown unit terminator 0 = s ++ terminator := by
  rw [hc.shown_page, h]
  simp [Line.shown, hs]

theorem Decoration.shown_page_element (d : Decoration) :
    d.decorator.element.page.shown unit terminator 0 = (d.line 0).text ++ terminator := by
  have hlines : d.decorator.element.lines 0 = [⟨0, (d.line 0).text⟩] := by
    have hmap := Decoration.map_line 0 [d]
    rw [List.map_singleton, List.map_singleton, List.map_singleton] at hmap
    rw [Decorator.lines_element, hmap]
    rfl
  have hne : (d.line 0).text ≠ "" := by simp [Decoration.line]
  exact d.decorator.closed_element.shown_page_of_lines hne hlines

theorem shown_page_docElement (doc : Option String) (ht : terminator ≠ "") :
    (docElement doc).page.shown unit terminator 0 =
      (doc.map fun s => ((Element.docstring s).alone unit terminator 1).target).getD "" := by
  rw [docElement, Element.shown_page_indented]
  cases doc with
  | none => rfl
  | some s =>
    have hflat := Element.flat_docstring s
    have hd : 1 + (Element.docstring s).height ≤ maxDepth := by
      rw [hflat.height]
      decide
    have hclosed : ∀ e ∈ [Element.docstring s], e.Closed := by
      simpa using Element.closed_docstring s
    have halone := (hflat.plain.alone_eq unit ht hd).1
    simp [Element.shown_page_seq unit terminator hclosed, halone]

theorem join_shown_apart (first : Bool) (es : List Element) :
    let texts := es.map fun e => e.page.shown unit terminator 1
    String.join ((apart first es).map fun e => e.page.shown unit terminator 1) =
      if first then terminator.intercalate texts
      else String.join (texts.map (terminator ++ ·)) := by
  have hblank : Element.blankLine.page.shown unit terminator 1 = terminator :=
    Element.shown_page_blankLine
  unfold apart
  split
  · rw [join_map_intersperse, hblank]
  · rw [join_map_flatMap_pair, hblank]

namespace ClassDecl

/-- The line that begins the class. -/
def opening (c : ClassDecl) : String :=
  "class " ++ c.name ++ "("
    ++ (if c.parents.isEmpty then "object" else ", ".intercalate c.parents) ++ "):"

/-- A line per decorator, the line that begins the class, and the docstring at depth 1. -/
def headerText (unit terminator : String) (c : ClassDecl) : String :=
  String.join (c.decorators.map fun d => (d.line 0).text ++ terminator)
    ++ (c.opening ++ terminator)
    ++ (c.doc.map fun s => ((Element.docstring s).alone unit terminator 1).target).getD ""

/-- A line per attribute, then the methods as they are written alone at depth 1, with an empty line
before each save one that has nothing before it. -/
def membersText (unit terminator : String) (c : ClassDecl) : String :=
  let methods := c.methods.map fun f => (f.function.element.alone unit terminator 1).target
  String.join (c.attributes.map fun b => unit ++ b.name ++ " = " ++ b.value ++ terminator)
    ++ if c.attributes.isEmpty then terminator.intercalate methods
      else String.join (methods.map (terminator ++ ·))

def text (unit terminator : String) (c : ClassDecl) : String :=
  c.headerText unit terminator
    ++ if c.attributes.isEmpty && c.methods.isEmpty then unit ++ "pass" ++ terminator
      else c.membersText unit terminator

theorem shown_page_header (c : ClassDecl) (ht : terminator ≠ "") :
    c.class.header.page.shown unit terminator 0 = c.headerText unit terminator := by
  have hopening : "class " ++ c.class.name ++ "(" ++ c.class.bases ++ "):" = c.opening := by
    rw [c.class_eq]
    rfl
  have hpage : c.class.header.page = (Element.seq (c.class.decorators.map Decorator.element ++
      [.oneLine [c.opening], docElement c.class.doc])).page := by
    rw [← hopening]
    exact c.class.lay_header 0 .blank
  have hdecorators : (c.class.decorators.map Decorator.element).map
        (fun e => e.page.shown unit terminator 0) =
      c.decorators.map fun d => (d.line 0).text ++ terminator := by
    rw [c.class_eq, List.map_map, List.map_map]
    exact List.map_congr_left fun d _ => d.shown_page_element
  have hline : (Element.oneLine [c.opening]).page.shown unit terminator 0 =
      c.opening ++ terminator := by
    have hne : String.join [c.opening] ≠ "" := by simp [opening]
    have hlines := Element.lines_oneLine hne 0
    rw [(Element.closed_oneLine _).shown_page_of_lines hne hlines]
    simp
  have hdoc : c.class.doc = c.doc := by rw [c.class_eq]
  rw [hpage, Element.shown_page_seq unit terminator fun _ => closed_of_mem_header, hdoc,
    List.map_append, hdecorators, String.join_append, headerText]
  simp [hline, shown_page_docElement c.doc ht, String.append_assoc]

theorem shown_page_members (c : ClassDecl) (ht : terminator ≠ "") :
    (Element.seq c.members).page.shown unit terminator 1 = c.membersText unit terminator := by
  have hattributes : (c.attributes.map fun b => Element.assign b.name b.value).map
        (fun e => e.page.shown unit terminator 1) =
      c.attributes.map fun b => unit ++ b.name ++ " = " ++ b.value ++ terminator := by
    rw [List.map_map]
    apply List.map_congr_left
    intro b _
    have hne : b.name ++ " = " ++ b.value ≠ "" := by simp
    have hline : (Element.assign b.name b.value).page.shown unit terminator 1 =
        repeated unit 1 ++ (b.name ++ " = " ++ b.value) ++ terminator :=
      Element.shown_page_line hne
    simpa [String.append_assoc, repeated_succ] using hline
  have hmethods : (c.methods.map fun f => f.function.element).map
        (fun e => e.page.shown unit terminator 1) =
      c.methods.map fun f => (f.function.element.alone unit terminator 1).target := by
    rw [List.map_map]
    apply List.map_congr_left
    intro f _
    have hd : 1 + f.function.element.height ≤ maxDepth := by
      rw [f.height_element]
      decide
    exact (f.plain_element.alone_eq unit ht hd).1.symm
  rw [Element.shown_page_seq unit terminator fun _ => closed_of_mem_members, members,
    List.map_append, String.join_append, hattributes, join_shown_apart, hmethods, membersText]

/-- Every attribute and every method shows something. -/
theorem page_members_eq_blank_iff (c : ClassDecl) :
    (Element.seq c.members).page = .blank ↔ c.attributes = [] ∧ c.methods = [] := by
  constructor
  · intro h
    have hsilent := Element.lay_eq_self_of_layAll (fun _ => plain_of_mem_members) h
    constructor
    · apply List.eq_nil_iff_forall_not_mem.mpr
      intro b hb
      have hmem : Element.assign b.name b.value ∈ c.members :=
        List.mem_append_left _ (List.mem_map_of_mem hb)
      exact Element.speaks_line _ 0 .blank (hsilent _ hmem)
    · apply List.eq_nil_iff_forall_not_mem.mpr
      intro f hf
      have hspeaks : f.function.element.Speaks :=
        Element.speaks_block f.plain_element f.function.speaks_header
      exact hspeaks 0 .blank (hsilent _ (method_mem_members hf))
  · rintro ⟨hattributes, hmethods⟩
    have hnone : c.members = [] := by simp [members, hattributes, hmethods, apart]
    rw [hnone]
    rfl

theorem shown_page_element (c : ClassDecl) (ht : terminator ≠ "") :
    c.class.element.page.shown unit terminator 0 = c.text unit terminator := by
  have hbody : c.class.body = c.members := by rw [c.class_eq]
  have hpage : c.class.element.page =
      (Element.seq [c.class.header, .body c.members .pass]).page := by
    rw [← hbody]
    rfl
  have hparts : ∀ e ∈ [c.class.header, .body c.members .pass], e.Closed := by
    simp [c.class.closed_header, Element.closed_body]
  have hclosed : (Element.seq c.members).page.current.isNone = true :=
    Option.isNone_iff_eq_none.mpr (Element.closed_seq (fun _ => closed_of_mem_members) 0)
  have hmembers : (Element.body c.members .pass).page.shown unit terminator 0 =
      if c.attributes.isEmpty && c.methods.isEmpty then unit ++ "pass" ++ terminator
      else c.membersText unit terminator := by
    rw [Element.shown_page_body, hclosed, c.shown_page_members ht]
    simp [page_members_eq_blank_iff, repeated_succ]
  rw [hpage, Element.shown_page_seq unit terminator hparts, text, ← c.shown_page_header ht,
    ← hmembers]
  simp

/-- A declared class is written as its header and its members, or as its header and `pass` if it
has none. Whatever the bodies of its methods are, the text ends with a terminator. -/
theorem class_written (c : ClassDecl) {out : Sink σ ε}
    (hout : ∀ s target, ∃ last, out.append s target = .done last) {w : Writer σ}
    (hs : w.atLineStart = true) (hd : w.depth = 0) (ht : w.terminator ≠ "") :
    Writes out w (c.text w.unit w.terminator) (c.class.element.emit out w) ∧
      (∃ front, c.text w.unit w.terminator = front ++ w.terminator) ∧
      ∀ style : Style, c.class.element.render style =
        c.text style.indent.unit style.lineEnding.terminator := by
  have hclosed : c.class.element.Closed := Element.closed_block _ _
  have hheight := c.height_element
  have hmax : w.depth + c.class.element.height ≤ maxDepth := by
    have htwo : 2 ≤ maxDepth := by decide
    omega
  refine ⟨?_, ?_, fun style => ?_⟩
  · have hwrites := c.plain_element.writes hclosed hout hs ht hmax
    rwa [hd, c.shown_page_element ht] at hwrites
  · have hspeaks : c.class.element.Speaks :=
      Element.speaks_block c.plain_element c.class.speaks_header
    rw [← c.shown_page_element ht]
    rcases hclosed.shown_page_ends w.unit w.terminator with hempty | hends
    · exact absurd ((Page.shown_eq_empty_iff ht _).mp hempty) (hspeaks 0 .blank)
    · exact hends
  · rw [c.plain_element.render_eq (by omega), c.shown_page_element]
    exact style.lineEnding.terminator_ne_empty

/-- Attributes of one name, a method whose body ends in empty lines, and one without a body. -/
def sampleClass : ClassDecl where
  name := "C"
  parents := ["A", "B"]
  decorators := [.named "d", .call "e" ["1"] []]
  doc := some "Doc."
  attributes := [{ name := "x", value := "1" }, { name := "x", value := "2" }]
  methods := [{ name := "f", body := some "a\n\nb\n\n\n" }, { name := "g", doc := some "G" }]

theorem class_written_sample :
    let w : Writer String :=
      { unit := "\t", terminator := "\r\n", written := 3, target := "old" }
    let text :=
      "@d\r\n@e(1)\r\nclass C(A, B):\r\n\t\"\"\"Doc.\"\"\"\r\n\tx = 1\r\n\tx = 2\r\n\r\n" ++
        "\tdef f():\r\n\t\ta\r\n\r\n\t\tb\r\n\r\n\r\n" ++
        "\tdef g():\r\n\t\t\"\"\"G\"\"\"\r\n\t\tpass\r\n"
    Writes (Sink.text : Sink String Empty) w text
      (sampleClass.class.element.emit (Sink.text : Sink String Empty) w) := by
  intro w text
  have htext : sampleClass.text w.unit w.terminator = text := by decide +kernel
  obtain ⟨hwrites, -, -⟩ :=
    class_written sampleClass (Sink.text_accepts Empty) (w := w) rfl rfl (by decide)
  rwa [htext] at hwrites

end ClassDecl

end Stencil
