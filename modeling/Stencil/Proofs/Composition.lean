import Stencil.Manifest.Generate
import Stencil.Proofs.Layout

/-! A module is put together from parts that are rendered alone. A part is closed: it leaves no
line open, so what it puts down does not depend on what stands before it, and the lines of a
sequence of closed parts are their lines in order. -/

namespace Stencil

namespace Page

def below (above : List Line) (page : Page) : Page :=
  { page with ended := above ++ page.ended }

theorem below_injective {above : List Line} {p q : Page} (h : p.below above = q.below above) :
    p = q := by
  cases p
  cases q
  simp only [below, mk.injEq, List.append_cancel_left_eq] at h
  simpa using h

theorem write_below (above : List Line) (level : Nat) (s : String) (page : Page) :
    (page.below above).write level s = (page.write level s).below above := by
  by_cases hs : s = ""
  · simp [write, hs]
  · cases hc : page.current <;> simp [write, below, hs, hc]

theorem lineFeed_below (above : List Line) (page : Page) :
    (page.below above).lineFeed = page.lineFeed.below above := by
  simp [lineFeed, below]

theorem freshLine_below (above : List Line) (page : Page) :
    (page.below above).freshLine = page.freshLine.below above := by
  unfold freshLine
  have hc : (page.below above).current = page.current := rfl
  rw [hc, lineFeed_below]
  split <;> rfl

theorem eq_below_of_closed {page : Page} (h : page.current = none) :
    page = blank.below page.ended := by
  cases page
  simp only at h
  simp [below, h]

theorem current_freshLine (page : Page) : page.freshLine.current = none := by
  unfold freshLine
  split
  · simpa using ‹page.current.isNone = true›
  · rfl

end Page

mutual

theorem Element.lay_below (above : List Line) :
    (e : Element) → (level : Nat) → (page : Page) →
      e.lay level (page.below above) = (e.lay level page).below above
  | .text s, level, page => page.write_below above level s
  | .lineFeed, _, page => page.lineFeed_below above
  | .freshLine, _, page => page.freshLine_below above
  | .seq parts, level, page => Element.layAll_below above parts level page
  | .indented parts, level, page => Element.layAll_below above parts (level + 1) page
  | .body children placeholder, level, page => by
    have hc := Element.layAll_below above children (level + 1) page
    have hp := Element.lay_below above placeholder (level + 1) page
    simp only [Element.lay, hc, hp]
    by_cases h : Element.layAll children (level + 1) page = page
    · rw [if_pos (congrArg (Page.below above) h), if_pos h, Page.freshLine_below]
    · rw [if_neg fun he => h (Page.below_injective he), if_neg h, Page.freshLine_below]
  | .indent _, _, _ | .dedent _, _, _ | .reset, _, _ | .register _, _, _ | .flush, _, _ => rfl

theorem Element.layAll_below (above : List Line) :
    (es : List Element) → (level : Nat) → (page : Page) →
      Element.layAll es level (page.below above) = (Element.layAll es level page).below above
  | [], _, _ => rfl
  | e :: es, level, page => by
    rw [Element.layAll, Element.layAll, Element.lay_below above e, Element.layAll_below above es]

end

namespace Element

/-- Leaves no line open if it begins one. -/
def Closed (e : Element) : Prop :=
  ∀ level, (e.lay level .blank).current = none

/-- The lines of an element that begins a line. -/
def lines (level : Nat) (e : Element) : List Line :=
  (e.lay level .blank).ended

theorem Closed.lay_eq {e : Element} (h : e.Closed) (level : Nat) :
    e.lay level .blank = Page.blank.below (e.lines level) :=
  Page.eq_below_of_closed (h level)

theorem layAll_of_closed {es : List Element} (h : ∀ e ∈ es, e.Closed) (level : Nat) :
    layAll es level .blank = Page.blank.below (es.flatMap (lines level)) := by
  induction es with
  | nil => rfl
  | cons e es ih =>
    have hes := ih fun a ha => h a (by simp [ha])
    rw [layAll, (h e (by simp)).lay_eq, layAll_below, hes]
    simp [Page.below]

theorem closed_seq {es : List Element} (h : ∀ e ∈ es, e.Closed) : (Element.seq es).Closed := by
  intro level
  rw [lay, layAll_of_closed h]
  rfl

theorem lines_seq {es : List Element} (h : ∀ e ∈ es, e.Closed) (level : Nat) :
    (Element.seq es).lines level = es.flatMap (lines level) := by
  rw [lines, lay, layAll_of_closed h]
  simp [Page.below]

theorem closed_lineFeed : Element.lineFeed.Closed :=
  fun _ => rfl

theorem closed_freshLine : Element.freshLine.Closed :=
  fun _ => rfl

theorem closed_line (s : String) : (Element.line s).Closed :=
  fun _ => rfl

theorem closed_lines (ls : List String) : (Element.seq (ls.map .line)).Closed := by
  apply closed_seq
  intro e he
  obtain ⟨l, _, rfl⟩ := List.mem_map.mp he
  exact closed_line l

theorem closed_comment (s : String) : (Element.comment s).Closed := by
  obtain ⟨ls, h⟩ := comment_eq_lines s
  rw [h]
  exact closed_lines ls

theorem closed_docstring (s : String) : (Element.docstring s).Closed := by
  rcases docstring_eq_lines s with ⟨ls, h⟩ | ⟨l, h⟩
  · rw [h]
    exact closed_lines ls
  · rw [h]
    exact closed_line l

theorem closed_block (header : Element) (children : List Element) :
    (Element.block header children .pass .empty).Closed := by
  intro level
  exact Page.current_freshLine _

end Element

theorem Imports.closed_element (i : Imports) : i.element.Closed :=
  Element.closed_lines i.statements

theorem closed_of_mem_gap {count : Nat} {e : Element}
    (he : e ∈ Element.freshLine :: List.replicate count .lineFeed) : e.Closed := by
  rcases List.mem_cons.mp he with rfl | he
  · exact Element.closed_freshLine
  · rw [List.eq_of_mem_replicate he]
    exact Element.closed_lineFeed

theorem closed_gap (count : Nat) : (gap count).Closed :=
  Element.closed_seq fun _ => closed_of_mem_gap

section Texts

variable (unit terminator : String) {depth : Nat}

theorem Element.Closed.shown_page {e : Element} (h : e.Closed) :
    e.page.shown unit terminator depth =
      String.join ((e.lines 0).map fun line => line.shown unit depth ++ terminator) := by
  have hpage : e.page = Page.blank.below (e.lines 0) := h.lay_eq 0
  rw [hpage]
  simp [Page.shown, Page.below]

theorem Element.Closed.shown_page_ends {e : Element} (h : e.Closed) :
    e.page.shown unit terminator depth = "" ∨
      ∃ text, e.page.shown unit terminator depth = text ++ terminator := by
  rw [h.shown_page]
  rcases List.eq_nil_or_concat (e.lines 0) with hnil | ⟨before, last, hlast⟩
  · left
    rw [hnil]
    rfl
  · right
    refine ⟨String.join (before.map fun line => line.shown unit depth ++ terminator)
      ++ last.shown unit depth, ?_⟩
    rw [hlast, List.concat_eq_append, List.map_append, String.join_append]
    simp [String.append_assoc]

theorem Element.shown_page_seq {es : List Element} (h : ∀ e ∈ es, e.Closed) :
    (Element.seq es).page.shown unit terminator depth =
      String.join (es.map fun e => e.page.shown unit terminator depth) := by
  rw [(closed_seq h).shown_page, lines_seq h]
  induction es with
  | nil => rfl
  | cons e es ih =>
    have hes := ih fun a ha => h a (by simp [ha])
    rw [List.flatMap_cons, List.map_append, String.join_append, hes, List.map_cons,
      String.join_cons, (h e (by simp)).shown_page]

theorem shown_page_gap (count : Nat) :
    (gap count).page.shown unit terminator 0 = repeated terminator count := by
  rw [gap, Element.shown_page_seq unit terminator fun _ => closed_of_mem_gap]
  simp [Element.page, Element.lay, Page.freshLine, Page.lineFeed, Page.shown, Line.shown, repeated]

theorem join_map_intersperse {α : Type} (f : α → String) (sep : α) (l : List α) :
    String.join ((l.intersperse sep).map f) = (f sep).intercalate (l.map f) := by
  induction l with
  | nil => rfl
  | cons a l ih =>
    cases l with
    | nil => simp
    | cons b l =>
      simp only [List.intersperse_cons_cons, List.map_cons, String.join_cons] at ih ⊢
      rw [ih, String.intercalate_cons_cons, String.append_assoc]

theorem join_map_flatMap_pair {α : Type} (f : α → String) (sep : α) (l : List α) :
    String.join ((l.flatMap fun a => [sep, a]).map f) =
      String.join ((l.map f).map fun text => f sep ++ text) := by
  induction l with
  | nil => rfl
  | cons a l ih =>
    simp only [List.flatMap_cons, List.map_append, List.map_cons, String.join_append,
      String.join_cons, ih]
    simp

end Texts

/-- Sections with one terminator between neighbours, then definitions after two each, save one
that has nothing before it. -/
def assembled (terminator : String) (sections definitions : List String) : String :=
  terminator.intercalate sections ++
    if sections.isEmpty then (terminator ++ terminator).intercalate definitions
    else String.join (definitions.map fun text => terminator ++ terminator ++ text)

namespace Module

variable {m : Module}

theorem closed_sections {e : Element} (he : e ∈ m.sections) : e.Closed := by
  simp only [sections, List.mem_append, Option.mem_toList, Option.map_eq_some_iff] at he
  rcases he with (⟨s, _, rfl⟩ | ⟨s, _, rfl⟩) | he
  · exact Element.closed_comment s
  · exact Element.closed_docstring s
  · split at he
    · cases he
    · rw [List.mem_singleton.mp he]
      exact m.imports.closed_element

theorem closed_parts (hb : ∀ e ∈ m.body, e.Closed) {e : Element}
    (he : e ∈ m.sections.intersperse (gap 1) ++ m.definitions ++ [.freshLine]) : e.Closed := by
  simp only [List.mem_append, List.mem_singleton] at he
  rcases he with (he | he) | rfl
  · rcases eq_or_mem_of_mem_intersperse he with rfl | he
    · exact closed_gap 1
    · exact closed_sections he
  · rcases mem_definitions he with rfl | he
    · exact closed_gap 2
    · exact hb e he
  · exact Element.closed_freshLine

theorem join_map_definitions (unit terminator : String) :
    String.join (m.definitions.map fun e => e.page.shown unit terminator 0) =
      let texts := m.body.map fun e => e.page.shown unit terminator 0
      if m.sections.isEmpty then (terminator ++ terminator).intercalate texts
      else String.join (texts.map fun text => terminator ++ terminator ++ text) := by
  have hgap : (gap 2).page.shown unit terminator 0 = terminator ++ terminator := by
    rw [shown_page_gap]
    simp [repeated]
  unfold definitions
  split
  · rw [join_map_intersperse, hgap]
  · rw [join_map_flatMap_pair, hgap]

theorem shown_page_element (unit terminator : String) (hb : ∀ e ∈ m.body, e.Closed) :
    m.element.page.shown unit terminator 0 =
      assembled terminator (m.sections.map fun e => e.page.shown unit terminator 0)
        (m.body.map fun e => e.page.shown unit terminator 0) := by
  have hone : (gap 1).page.shown unit terminator 0 = terminator := by
    rw [shown_page_gap]
    simp [repeated]
  have hfresh : Element.freshLine.page.shown unit terminator 0 = "" := rfl
  rw [element, Element.shown_page_seq unit terminator fun _ => closed_parts hb, List.map_append,
    List.map_append, String.join_append, String.join_append, join_map_intersperse, hone,
    join_map_definitions]
  simp [assembled, hfresh]

end Module

theorem LineEnding.terminator_ne_empty (ending : LineEnding) : ending.terminator ≠ "" := by
  cases ending <;> decide

theorem Element.Plain.render_eq {e : Element} (h : e.Plain) (hd : e.height ≤ maxDepth)
    (style : Style) :
    e.render style = e.page.shown style.indent.unit style.lineEnding.terminator 0 := by
  have hemit : e.emit (Sink.text : Sink String Empty) (Writer.ofStyle style "") =
      .done (e.page.onto (Writer.ofStyle style "") 0) :=
    h.emit_text rfl style.lineEnding.terminator_ne_empty (by simpa [Writer.ofStyle] using hd)
  rw [Element.render, hemit]
  simp [Outcome.state, Page.onto, Writer.ofStyle]

/-- The function that is declared, but for how its body reads. -/
theorem FunctionDecl.function_eq (f : FunctionDecl) :
    ∃ body : List Element, (∀ e ∈ body, ∃ ls, e = .stack ls) ∧
      f.function = {
        name := f.name
        decorators := f.decorators.map Decoration.decorator
        isAsync := f.isAsync
        params := (({} : Parameters).args f.args).kwargs (bindingPairs f.kwargs)
        returns := f.returns
        doc := f.doc
        body := body } := by
  unfold FunctionDecl.function
  cases f.body with
  | none => exact ⟨[], by simp, rfl⟩
  | some s =>
    by_cases hs : isBlankText s = true
    · exact ⟨[], by simp, by simp [Function.bodyText, hs]⟩
    · refine ⟨[.stack (lines s)], fun e he => ⟨lines s, List.mem_singleton.mp he⟩, ?_⟩
      simp [Function.bodyText, Function.child, hs]

theorem FunctionDecl.plain_element (f : FunctionDecl) : f.function.element.Plain := by
  obtain ⟨body, hbody, he⟩ := f.function_eq
  apply Function.plain_element
  rw [he]
  intro e hm
  obtain ⟨ls, rfl⟩ := hbody e hm
  exact (Element.flat_stack ls).plain

theorem FunctionDecl.height_element (f : FunctionDecl) : f.function.element.height = 1 := by
  obtain ⟨body, hbody, he⟩ := f.function_eq
  have hzero : Element.heightAll f.function.body = 0 := by
    apply Element.heightAll_eq_zero
    rw [he]
    intro e hm
    obtain ⟨ls, rfl⟩ := hbody e hm
    exact (Element.flat_stack ls).height
  rw [Function.height_element, hzero]

theorem foldl_attr (bindings : List Binding) (k : Class) :
    bindings.foldl (fun k b => k.attr b.name b.value) k =
      { k with body := k.body ++ bindings.map fun b => .assign b.name b.value } := by
  induction bindings generalizing k with
  | nil => simp
  | cons b bindings ih =>
    rw [List.foldl_cons, ih]
    simp [Class.attr, Class.child]

/-- Elements with an empty line between neighbours, and one before them unless they come first. -/
def apart (first : Bool) (es : List Element) : List Element :=
  if first then es.intersperse .blankLine else es.flatMap fun e => [.blankLine, e]

theorem eq_or_mem_of_mem_apart {first : Bool} {es : List Element} {e : Element}
    (h : e ∈ apart first es) : e = .blankLine ∨ e ∈ es := by
  unfold apart at h
  split at h
  · exact eq_or_mem_of_mem_intersperse h
  · obtain ⟨a, ha, he⟩ := List.mem_flatMap.mp h
    rcases List.mem_cons.mp he with he | he
    · exact .inl he
    · exact .inr (List.mem_singleton.mp he ▸ ha)

theorem mem_apart_of_mem {first : Bool} {es : List Element} {e : Element} (h : e ∈ es) :
    e ∈ apart first es := by
  unfold apart
  split
  · exact mem_intersperse_of_mem h
  · exact List.mem_flatMap.mpr ⟨e, h, by simp⟩

theorem intersperse_cons {α : Type} (sep a : α) (l : List α) :
    (a :: l).intersperse sep = a :: l.flatMap fun b => [sep, b] := by
  induction l generalizing a with
  | nil => rfl
  | cons b l ih =>
    rw [List.intersperse_cons_cons, ih]
    rfl

theorem foldl_method (methods : List FunctionDecl) (k : Class) :
    methods.foldl (fun k f => k.method f.function) k =
      { k with body :=
          k.body ++ apart k.body.isEmpty (methods.map fun f => f.function.element) } := by
  induction methods generalizing k with
  | nil => simp [apart]
  | cons f methods ih =>
    -- the class has a member from here on
    have hnext : (k.method f.function).body.isEmpty = false := by simp [Class.method]
    rw [List.foldl_cons, ih, hnext]
    cases hk : k.body.isEmpty with
    | true => simp [apart, Class.method, hk, intersperse_cons]
    | false => simp [apart, Class.method, hk]

/-- Attributes, then methods with empty lines between. -/
def ClassDecl.members (c : ClassDecl) : List Element :=
  c.attributes.map (fun b => .assign b.name b.value)
    ++ apart c.attributes.isEmpty (c.methods.map fun f => f.function.element)

theorem ClassDecl.class_eq (c : ClassDecl) :
    c.class = {
      name := c.name
      parents := c.parents
      decorators := c.decorators.map Decoration.decorator
      doc := c.doc
      body := c.members } := by
  rw [ClassDecl.class, foldl_attr, foldl_method]
  simp [ClassDecl.members]

theorem ClassDecl.cases_of_mem_members {c : ClassDecl} {e : Element} (h : e ∈ c.members) :
    (∃ b ∈ c.attributes, e = .assign b.name b.value) ∨ e = .blankLine ∨
      ∃ f ∈ c.methods, e = f.function.element := by
  rcases List.mem_append.mp h with h | h
  · obtain ⟨b, hb, rfl⟩ := List.mem_map.mp h
    exact .inl ⟨b, hb, rfl⟩
  · rcases eq_or_mem_of_mem_apart h with rfl | h
    · exact .inr (.inl rfl)
    · obtain ⟨f, hf, rfl⟩ := List.mem_map.mp h
      exact .inr (.inr ⟨f, hf, rfl⟩)

theorem ClassDecl.method_mem_members {c : ClassDecl} {f : FunctionDecl} (h : f ∈ c.methods) :
    f.function.element ∈ c.members :=
  List.mem_append_right _ (mem_apart_of_mem (List.mem_map_of_mem h))

theorem ClassDecl.plain_of_mem_members {c : ClassDecl} {e : Element} (h : e ∈ c.members) :
    e.Plain := by
  rcases cases_of_mem_members h with ⟨b, _, rfl⟩ | rfl | ⟨f, _, rfl⟩
  · exact (Element.flat_line _).plain
  · exact Element.flat_blankLine.plain
  · exact f.plain_element

theorem ClassDecl.plain_element (c : ClassDecl) : c.class.element.Plain := by
  apply Class.plain_element
  rw [c.class_eq]
  exact fun _ => plain_of_mem_members

theorem ClassDecl.height_element (c : ClassDecl) : c.class.element.height ≤ 2 := by
  have hone : Element.heightAll c.class.body ≤ 1 := by
    apply Element.heightAll_le
    rw [c.class_eq]
    intro e hm
    rcases cases_of_mem_members hm with ⟨b, _, rfl⟩ | rfl | ⟨f, _, rfl⟩
    · exact Nat.le_trans (Nat.le_of_eq (Element.flat_line _).height) (Nat.zero_le 1)
    · exact Nat.le_trans (Nat.le_of_eq Element.flat_blankLine.height) (Nat.zero_le 1)
    · exact Nat.le_of_eq f.height_element
  rw [Class.height_element]
  omega

namespace Imports

theorem isEmpty_foldl {α : Type} {add : Imports → α → Imports}
    (h : ∀ i a, (add i a).isEmpty = false) (i : Imports) (as : List α) :
    (as.foldl add i).isEmpty = (as.isEmpty && i.isEmpty) := by
  induction as generalizing i with
  | nil => simp
  | cons a as ih => simp [ih, h]

end Imports

theorem updateEntry_ne_nil {β : Type} (key : String) (f : Option β → β)
    (entries : List (String × β)) : updateEntry key f entries ≠ [] := by
  cases entries with
  | nil => simp [updateEntry]
  | cons entry rest =>
    rw [updateEntry]
    split <;> simp

theorem Catalog.isEmpty_update {β : Type} (c : Catalog β) (key : String) (f : Option β → β) :
    (c.update key f).isEmpty = false := by
  simp [Catalog.isEmpty, Catalog.update, updateEntry_ne_nil]

theorem ImportDecl.isEmpty_addTo (imports : Imports) (i : ImportDecl) :
    (i.addTo imports).isEmpty = false := by
  have hsymbol : ∀ (known : Imports) symbol, (known.addSymbol i.source symbol).isEmpty = false := by
    intro known symbol
    simp [Imports.addSymbol, Imports.isEmpty, Catalog.isEmpty_update]
  unfold ImportDecl.addTo
  cases hs : i.symbols with
  | nil =>
    cases i.localName with
    | none => simp [Imports.addModule, Imports.isEmpty, Catalog.isEmpty_update]
    | some localName =>
      simp [Imports.addAlias, Imports.isEmpty, Catalog.put, Catalog.isEmpty_update]
  | cons symbol symbols =>
    have h := Imports.isEmpty_foldl hsymbol imports (symbol :: symbols)
    simpa using h

theorem Manifest.isEmpty_collectedImports (m : Manifest) :
    m.collectedImports.isEmpty = m.imports.isEmpty := by
  have h := Imports.isEmpty_foldl ImportDecl.isEmpty_addTo {} m.imports
  have hnone : ({} : Imports).isEmpty = true := rfl
  rwa [hnone, Bool.and_true] at h

namespace Manifest

/-- The sections that are present, each rendered alone. -/
def sectionTexts (m : Manifest) : List String :=
  (m.info.header.toList.filter fun s => !isBlankText s).map
      (fun s => (Element.comment s).render m.style)
    ++ (m.info.doc.toList.filter fun s => !isBlankText s).map
      (fun s => (Element.docstring s).render m.style)
    ++ if m.imports.isEmpty then [] else [m.collectedImports.element.render m.style]

/-- The definitions in order, each rendered alone. -/
def definitionTexts (m : Manifest) : List String :=
  m.classes.map (fun c => c.class.element.render m.style)
    ++ m.functions.map (fun f => f.function.element.render m.style)

variable (m : Manifest)

theorem mem_body_module {e : Element} (he : e ∈ m.module.body) :
    e.Plain ∧ e.height ≤ 2 ∧ e.Closed := by
  rcases List.mem_append.mp he with he | he
  · obtain ⟨c, _, rfl⟩ := List.mem_map.mp he
    exact ⟨c.plain_element, c.height_element, Element.closed_block _ _⟩
  · obtain ⟨f, _, rfl⟩ := List.mem_map.mp he
    exact ⟨f.plain_element, by rw [f.height_element]; omega, Element.closed_block _ _⟩

theorem render_module_eq : m.module.render =
    m.module.element.page.shown m.style.indent.unit m.style.lineEnding.terminator 0 := by
  have hplain : m.module.element.Plain :=
    Module.plain_element fun e he => (m.mem_body_module he).1
  have hheight : m.module.element.height ≤ 2 := by
    rw [Module.height_element]
    exact Element.heightAll_le fun e he => (m.mem_body_module he).2.1
  exact hplain.render_eq (Nat.le_trans hheight (by decide)) m.style

theorem map_shown_sections :
    (m.module.sections.map fun e =>
      e.page.shown m.style.indent.unit m.style.lineEnding.terminator 0) = m.sectionTexts := by
  have hflat : ∀ e : Element, e.Flat →
      e.page.shown m.style.indent.unit m.style.lineEnding.terminator 0 = e.render m.style := by
    intro e he
    rw [he.plain.render_eq (by rw [he.height]; exact Nat.zero_le _)]
  have hvisible : ∀ (text : Option String) (f : String → Element), (∀ s, (f s).Flat) →
      (((text.bind visible).map f).toList.map fun e =>
        e.page.shown m.style.indent.unit m.style.lineEnding.terminator 0) =
      (text.toList.filter fun s => !isBlankText s).map fun s => (f s).render m.style := by
    intro text f hf
    cases text with
    | none => rfl
    | some s =>
      by_cases hs : isBlankText s = true
      · simp [visible, hs]
      · simp [visible, hs, hflat _ (hf s)]
  have himports : m.module.imports.isEmpty = m.imports.isEmpty := m.isEmpty_collectedImports
  rw [Module.sections, himports, List.map_append, List.map_append]
  unfold sectionTexts
  congr 1
  · congr 1
    · exact hvisible m.info.header _ Element.flat_comment
    · exact hvisible m.info.doc _ Element.flat_docstring
  · split
    · rfl
    · exact congrArg (fun text => [text]) (hflat _ m.collectedImports.flat_element)

theorem map_shown_body :
    (m.module.body.map fun e =>
      e.page.shown m.style.indent.unit m.style.lineEnding.terminator 0) = m.definitionTexts := by
  have hbody : m.definitionTexts = m.module.body.map (Element.render m.style) := by
    simp [definitionTexts, module, Function.comp_def]
  rw [hbody]
  apply List.map_congr_left
  intro e he
  obtain ⟨hplain, hheight, -⟩ := m.mem_body_module he
  rw [hplain.render_eq (Nat.le_trans hheight (by decide))]

/-- The text of a module is put together from the texts of its sections and definitions, each
rendered alone, and it is empty or ends with the terminator. -/
theorem render_module_assembled :
    m.module.render = assembled m.style.lineEnding.terminator m.sectionTexts m.definitionTexts ∧
      (m.module.render = "" ∨ ∃ text, m.module.render = text ++ m.style.lineEnding.terminator) := by
  have hclosed : ∀ e ∈ m.module.body, e.Closed := fun e he => (m.mem_body_module he).2.2
  refine ⟨?_, ?_⟩
  · rw [render_module_eq, Module.shown_page_element _ _ hclosed, map_shown_sections, map_shown_body]
  · have hparts : m.module.element.Closed :=
      Element.closed_seq fun _ => Module.closed_parts hclosed
    rw [render_module_eq]
    exact hparts.shown_page_ends _ _

end Manifest

end Stencil
