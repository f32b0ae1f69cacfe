import Stencil.Proofs.Members
import Stencil.Proofs.Trim

/-! A manifest without its blank texts. A blank header, module docstring or body leaves no trace in
the module, but a definition keeps a blank docstring, as a line that holds only the quotes. -/

namespace Stencil

/-- The lines that are kept, in their order, are all lines but those left out. -/
structure LeavesOut (left kept all : List Line) : Prop where
  sublist : kept.Sublist all
  perm : all.Perm (kept ++ left)

namespace LeavesOut

variable {left left' kept kept' all all' : List Line}

theorem refl (all : List Line) : LeavesOut [] all all :=
  ⟨.refl all, by rw [List.append_nil]⟩

theorem append (h : LeavesOut left kept all) (h' : LeavesOut left' kept' all') :
    LeavesOut (left ++ left') (kept ++ kept') (all ++ all') := by
  refine ⟨h.sublist.append h'.sublist, ?_⟩
  have hswap : (left ++ kept').Perm (kept' ++ left) := List.perm_append_comm
  calc all ++ all'
    _ |>.Perm (kept ++ left ++ (kept' ++ left')) := h.perm.append h'.perm
    _ = kept ++ ((left ++ kept') ++ left') := by simp
    _ |>.Perm (kept ++ ((kept' ++ left) ++ left')) := (hswap.append_right left').append_left kept
    _ = kept ++ kept' ++ (left ++ left') := by simp

theorem behind (front : List Line) (h : LeavesOut left kept all) :
    LeavesOut left (front ++ kept) (front ++ all) :=
  (refl front).append h

theorem before (h : LeavesOut left kept all) (back : List Line) :
    LeavesOut left (kept ++ back) (all ++ back) := by
  have happend := h.append (refl back)
  rwa [List.append_nil] at happend

theorem flatMap {α : Type} {items : List α} {left kept all : α → List Line}
    (h : ∀ a ∈ items, LeavesOut (left a) (kept a) (all a)) :
    LeavesOut (items.flatMap left) (items.flatMap kept) (items.flatMap all) := by
  induction items with
  | nil => exact refl []
  | cons a items ih =>
    have hitems := ih fun b hb => h b (List.mem_cons_of_mem a hb)
    exact (h a List.mem_cons_self).append hitems

/-- Elements with a separator between neighbours, and one before them unless they come first. -/
theorem separated {α : Type} {items : List α} {left : α → List Line} {kept all : α → Element}
    {level : Nat} (first : Bool) (sep : Element)
    (h : ∀ a ∈ items, LeavesOut (left a) ((kept a).lines level) ((all a).lines level)) :
    LeavesOut (items.flatMap left)
      ((if first then (items.map kept).intersperse sep
        else (items.map kept).flatMap fun e => [sep, e]).flatMap (Element.lines level))
      ((if first then (items.map all).intersperse sep
        else (items.map all).flatMap fun e => [sep, e]).flatMap (Element.lines level)) := by
  have hbehind : ∀ as : List α, (∀ a ∈ as, a ∈ items) → LeavesOut (as.flatMap left)
      (((as.map kept).flatMap fun e => [sep, e]).flatMap (Element.lines level))
      (((as.map all).flatMap fun e => [sep, e]).flatMap (Element.lines level)) := by
    intro as has
    have hpairs := flatMap fun a ha => (h a (has a ha)).behind (sep.lines level)
    simpa [List.flatMap_map, List.flatMap_assoc] using hpairs
  cases first with
  | false => exact hbehind items fun _ ha => ha
  | true =>
    cases items with
    | nil => exact refl []
    | cons a items =>
      have hitems := hbehind items fun _ hb => List.mem_cons_of_mem a hb
      have hcons := (h a List.mem_cons_self).append hitems
      simpa [intersperse_cons] using hcons

theorem eq_of_nil (h : LeavesOut [] kept all) : kept = all := by
  have hlength := h.perm.length_eq
  rw [List.append_nil] at hlength
  exact h.sublist.eq_of_length hlength.symm

end LeavesOut

/-- The text of lines that begin at depth 0. -/
def Style.shown (style : Style) (lines : List Line) : String :=
  String.join (lines.map fun line =>
    line.shown style.indent.unit 0 ++ style.lineEnding.terminator)

theorem Style.size_shown_append (style : Style) (lines more : List Line) :
    (style.shown (lines ++ more)).utf8ByteSize =
      (style.shown lines).utf8ByteSize + (style.shown more).utf8ByteSize := by
  simp [Style.shown, String.join_append, String.utf8ByteSize_append]

theorem Style.size_shown_cons (style : Style) (line : Line) (lines : List Line) :
    (style.shown (line :: lines)).utf8ByteSize =
      (style.shown [line]).utf8ByteSize + (style.shown lines).utf8ByteSize :=
  style.size_shown_append [line] lines

theorem Style.size_shown_perm (style : Style) {lines others : List Line} (h : lines.Perm others) :
    (style.shown lines).utf8ByteSize = (style.shown others).utf8ByteSize := by
  induction h with
  | nil => rfl
  | cons line _ ih => rw [size_shown_cons, ih, ← size_shown_cons]
  | swap line other lines =>
    have hline := style.size_shown_cons line lines
    have hother := style.size_shown_cons other lines
    have hlines := style.size_shown_cons other (line :: lines)
    have hothers := style.size_shown_cons line (other :: lines)
    omega
  | trans _ _ ih ih' => exact ih.trans ih'

theorem Style.size_shown_pos (style : Style) {lines : List Line} (h : lines ≠ []) :
    0 < (style.shown lines).utf8ByteSize := by
  obtain ⟨line, rest, rfl⟩ := List.exists_cons_of_ne_nil h
  have hterminator := mt String.utf8ByteSize_eq_zero_iff.mp style.lineEnding.terminator_ne_empty
  have hline : (style.shown [line]).utf8ByteSize =
      (line.shown style.indent.unit 0).utf8ByteSize
        + style.lineEnding.terminator.utf8ByteSize := by
    simp [Style.shown, String.utf8ByteSize_append]
  rw [size_shown_cons]
  omega

/-- Every line that is left out is missed in the text. -/
theorem LeavesOut.shown_eq_iff {left kept all : List Line} (h : LeavesOut left kept all)
    (style : Style) : style.shown kept = style.shown all ↔ left = [] := by
  constructor
  · intro heq
    refine Decidable.byContradiction fun hleft => ?_
    have hpos := style.size_shown_pos hleft
    have hall := style.size_shown_perm h.perm
    rw [Style.size_shown_append, ← heq] at hall
    omega
  · rintro rfl
    rw [h.eq_of_nil]

section Declared

def FunctionDecl.withoutBlanks (f : FunctionDecl) : FunctionDecl :=
  { f with doc := f.doc.bind visible, body := f.body.bind visible }

def ClassDecl.withoutBlanks (c : ClassDecl) : ClassDecl :=
  { c with doc := c.doc.bind visible, methods := c.methods.map FunctionDecl.withoutBlanks }

/-- The manifest in which every blank header, docstring and body is absent. -/
def Manifest.withoutBlanks (m : Manifest) : Manifest :=
  { m with
    info := { m.info with header := m.info.header.bind visible, doc := m.info.doc.bind visible }
    classes := m.classes.map ClassDecl.withoutBlanks
    functions := m.functions.map FunctionDecl.withoutBlanks }

/-- What a blank docstring leaves in a definition at a level: its quotes on a line. -/
def emptyDocs (level : Nat) (doc : Option String) : List Line :=
  (doc.toList.filter isBlankText).map fun _ => ⟨level + 1, tripleQuote ++ tripleQuote⟩

def ClassDecl.emptyDocs (c : ClassDecl) : List Line :=
  Stencil.emptyDocs 0 c.doc ++ c.methods.flatMap fun f => Stencil.emptyDocs 1 f.doc

def Manifest.emptyDocs (m : Manifest) : List Line :=
  m.classes.flatMap ClassDecl.emptyDocs ++ m.functions.flatMap fun f => Stencil.emptyDocs 0 f.doc

theorem emptyDocs_eq_nil_iff (level : Nat) (doc : Option String) :
    emptyDocs level doc = [] ↔ ∀ s ∈ doc, isBlankText s = false := by
  simp [emptyDocs, List.filter_eq_nil_iff]

theorem visible_of_visible (text : Option String) :
    (text.bind visible).bind visible = text.bind visible := by
  cases text with
  | none => rfl
  | some s => by_cases hs : isBlankText s = true <;> simp [visible, hs]

end Declared

section Definitions

theorem Element.docstring_of_blank {s : String} (h : isBlankText s = true) :
    Element.docstring s = .line (tripleQuote ++ tripleQuote) := by
  have htrim : trimBoth s.toList = [] := by
    rw [trimBoth, trimLeft_blanks (List.all_eq_true.mp h)]
    rfl
  rw [Element.docstring, htrim]
  rfl

theorem lines_docElement (doc : Option String) (level : Nat) :
    (docElement doc).lines level =
      doc.toList.flatMap fun s => (Element.docstring s).lines (level + 1) := by
  cases doc <;> simp [docElement, Element.lines, Element.lay, Element.layAll]

theorem leavesOut_docElement (doc : Option String) (level : Nat) :
    LeavesOut (emptyDocs level doc) ((docElement (doc.bind visible)).lines level)
      ((docElement doc).lines level) := by
  rw [lines_docElement, lines_docElement]
  cases doc with
  | none => exact .refl []
  | some s =>
    by_cases hs : isBlankText s = true
    · have hline : (Element.docstring s).lines (level + 1) =
          [⟨level + 1, tripleQuote ++ tripleQuote⟩] := by
        rw [Element.docstring_of_blank hs]
        rfl
      simp only [emptyDocs, visible, hs, hline, Option.bind_some, if_true, Option.toList_none,
        Option.toList_some, List.flatMap_nil, List.flatMap_singleton, List.filter_cons,
        List.filter_nil, List.map_cons, List.map_nil]
      exact ⟨List.nil_sublist _, .refl _⟩
    · have hnone : emptyDocs level (some s) = [] := by simp [emptyDocs, hs]
      have hvisible : (some s).bind visible = some s := by simp [visible, hs]
      rw [hnone, hvisible]
      exact .refl _

/-- Of a header only the docstring may be left out. -/
theorem leavesOut_header (decorators : List Decorator) (texts : List String)
    (doc : Option String) (level : Nat) :
    LeavesOut (emptyDocs level doc)
      ((Element.seq (decorators.map Decorator.element ++
        [.oneLine texts, docElement (doc.bind visible)])).lines level)
      ((Element.seq (decorators.map Decorator.element ++
        [.oneLine texts, docElement doc])).lines level) := by
  have hlines : ∀ other : Option String, (Element.seq (decorators.map Decorator.element ++
        [.oneLine texts, docElement other])).lines level =
      (decorators.map Decorator.element ++ [Element.oneLine texts]).flatMap (Element.lines level)
        ++ (docElement other).lines level := by
    intro other
    rw [Element.lines_seq fun _ => closed_of_mem_header]
    simp
  rw [hlines, hlines]
  exact (leavesOut_docElement doc level).behind _

/-- A blank body is absent already. -/
theorem FunctionDecl.function_withoutBlanks (f : FunctionDecl) :
    f.withoutBlanks.function = { f.function with doc := f.doc.bind visible } := by
  unfold FunctionDecl.function FunctionDecl.withoutBlanks
  cases f.body with
  | none => rfl
  | some s => by_cases hs : isBlankText s = true <;> simp [visible, Function.bodyText, hs,
      Function.child]

theorem FunctionDecl.leavesOut_element (f : FunctionDecl) (level : Nat) :
    LeavesOut (Stencil.emptyDocs level f.doc) (f.withoutBlanks.function.element.lines level)
      (f.function.element.lines level) := by
  have hdoc : f.function.doc = f.doc := by
    obtain ⟨body, -, hf⟩ := f.function_eq
    rw [hf]
  rw [f.function_withoutBlanks, Function.lines_element, Function.lines_element,
    Element.lines_of_lay_eq (Function.lay_header _), Element.lines_of_lay_eq f.function.lay_header,
    hdoc]
  exact (leavesOut_header _ _ f.doc level).before _

theorem Element.lines_body {children : List Element} (h : ∀ e ∈ children, e.Closed) :
    (Element.body children .pass).lines 0 =
      if (Element.seq children).page = .blank then [⟨1, "pass"⟩]
      else children.flatMap (Element.lines 1) := by
  have hinner : layAll children 1 .blank = (Element.seq children).page.deeper :=
    layAll_deeper children 0 .blank
  have hbody : (Element.body children .pass).lines 0 =
      (if layAll children 1 .blank = .blank then Element.pass.lay 1 .blank
        else layAll children 1 .blank).freshLine.ended := rfl
  by_cases hblank : (Element.seq children).page = .blank
  · have hlay : layAll children 1 .blank = .blank := by
      rw [hinner, hblank]
      rfl
    rw [hbody, if_pos hlay, if_pos hblank]
    rfl
  · have hlay : layAll children 1 .blank ≠ .blank := by
      intro hlay
      rw [hinner] at hlay
      exact hblank (Page.deeper_injective hlay)
    rw [hbody, if_neg hlay, if_neg hblank, layAll_of_closed h]
    simp [Page.below, Page.freshLine]

namespace ClassDecl

variable (c : ClassDecl)

theorem leavesOut_members :
    LeavesOut (c.methods.flatMap fun f => Stencil.emptyDocs 1 f.doc)
      (c.withoutBlanks.members.flatMap (Element.lines 1))
      (c.members.flatMap (Element.lines 1)) := by
  have hmethods := LeavesOut.separated c.attributes.isEmpty .blankLine
    fun (f : FunctionDecl) (_ : f ∈ c.methods) => f.leavesOut_element 1
  have hmembers := hmethods.behind
    ((c.attributes.map fun b => Element.assign b.name b.value).flatMap (Element.lines 1))
  simpa only [members, apart, withoutBlanks, List.flatMap_append, List.map_map,
    Function.comp_def] using hmembers

/-- The placeholder stands for the members in both classes or in none. -/
theorem leavesOut_body :
    LeavesOut (c.methods.flatMap fun f => Stencil.emptyDocs 1 f.doc)
      ((Element.body c.withoutBlanks.members .pass).lines 0)
      ((Element.body c.members .pass).lines 0) := by
  have hsame : (Element.seq c.withoutBlanks.members).page = .blank ↔
      (Element.seq c.members).page = .blank := by
    rw [page_members_eq_blank_iff, page_members_eq_blank_iff]
    simp [withoutBlanks]
  rw [Element.lines_body fun _ => closed_of_mem_members,
    Element.lines_body fun _ => closed_of_mem_members]
  by_cases hblank : (Element.seq c.members).page = .blank
  · have hnone : c.methods = [] := (c.page_members_eq_blank_iff.mp hblank).2
    rw [if_pos (hsame.mpr hblank), if_pos hblank, hnone]
    exact .refl _
  · rw [if_neg fun h => hblank (hsame.mp h), if_neg hblank]
    exact c.leavesOut_members

theorem leavesOut_element :
    LeavesOut c.emptyDocs (c.withoutBlanks.class.element.lines 0) (c.class.element.lines 0) := by
  have hbody : ∀ k : ClassDecl, k.class.body = k.members := fun k => by rw [k.class_eq]
  rw [Class.lines_element, Class.lines_element, hbody, hbody,
    Element.lines_of_lay_eq (Class.lay_header _), Element.lines_of_lay_eq (Class.lay_header _)]
  have hheader := leavesOut_header c.class.decorators
    ["class " ++ c.class.name ++ "(" ++ c.class.bases ++ "):"] c.doc 0
  refine LeavesOut.append ?_ c.leavesOut_body
  rw [c.class_eq] at hheader ⊢
  rw [c.withoutBlanks.class_eq]
  exact hheader

end ClassDecl

end Definitions

namespace Manifest

variable (m : Manifest)

theorem sections_withoutBlanks : m.withoutBlanks.module.sections = m.module.sections := by
  have hheader : m.withoutBlanks.module.header = m.module.header := visible_of_visible _
  have hdoc : m.withoutBlanks.module.doc = m.module.doc := visible_of_visible _
  have himports : m.withoutBlanks.module.imports = m.module.imports := rfl
  rw [Module.sections, Module.sections, hheader, hdoc, himports]

theorem leavesOut_definitions :
    LeavesOut m.emptyDocs (m.withoutBlanks.module.definitions.flatMap (Element.lines 0))
      (m.module.definitions.flatMap (Element.lines 0)) := by
  -- the definitions of both kinds in one list, so that the gaps between them are the same
  let items : List (ClassDecl ⊕ FunctionDecl) := m.classes.map .inl ++ m.functions.map .inr
  let left := Sum.elim ClassDecl.emptyDocs fun f : FunctionDecl => Stencil.emptyDocs 0 f.doc
  let kept : ClassDecl ⊕ FunctionDecl → Element :=
    Sum.elim (fun c => c.withoutBlanks.class.element) fun f => f.withoutBlanks.function.element
  let all : ClassDecl ⊕ FunctionDecl → Element :=
    Sum.elim (fun c => c.class.element) fun f => f.function.element
  have hitem : ∀ a ∈ items, LeavesOut (left a) ((kept a).lines 0) ((all a).lines 0) := by
    intro a _
    cases a with
    | inl c => exact c.leavesOut_element
    | inr f => exact f.leavesOut_element 0
  have hleft : items.flatMap left = m.emptyDocs := by
    simp [items, left, emptyDocs, List.flatMap_map]
  have hkept : items.map kept = m.withoutBlanks.module.body := by
    simp [items, kept, module, withoutBlanks, Function.comp_def]
  have hall : items.map all = m.module.body := by
    simp [items, all, module, Function.comp_def]
  have hseparated := LeavesOut.separated m.module.sections.isEmpty (gap 2) hitem
  rw [hleft, hkept, hall] at hseparated
  rwa [Module.definitions, Module.definitions, sections_withoutBlanks]

theorem closed_of_mem_parts {e : Element} (he : e ∈ m.module.sections.intersperse (gap 1)
    ++ m.module.definitions ++ [.freshLine]) : e.Closed :=
  Module.closed_parts (fun _ hb => (m.mem_body_module hb).2.2) he

theorem leavesOut_module :
    LeavesOut m.emptyDocs (m.withoutBlanks.module.element.lines 0) (m.module.element.lines 0) := by
  rw [Module.element, Module.element, Element.lines_seq fun _ => closed_of_mem_parts _,
    Element.lines_seq fun _ => closed_of_mem_parts _, sections_withoutBlanks]
  simp only [List.flatMap_append]
  exact (m.leavesOut_definitions.behind _).before _

theorem render_module_lines : m.module.render = m.style.shown (m.module.element.lines 0) := by
  have hclosed : m.module.element.Closed := Element.closed_seq fun _ => m.closed_of_mem_parts
  rw [render_module_eq, hclosed.shown_page]
  rfl

theorem emptyDocs_eq_nil_iff : m.emptyDocs = [] ↔
    (∀ c ∈ m.classes, (∀ s ∈ c.doc, isBlankText s = false) ∧
      ∀ f ∈ c.methods, ∀ s ∈ f.doc, isBlankText s = false) ∧
    ∀ f ∈ m.functions, ∀ s ∈ f.doc, isBlankText s = false := by
  simp only [emptyDocs, ClassDecl.emptyDocs, List.append_eq_nil_iff, List.flatMap_eq_nil_iff,
    Stencil.emptyDocs_eq_nil_iff]

/-- Without its blank texts a manifest gives the same lines, save one of quotes for each blank
docstring of a class, a function or a method. So the module is the same exactly if none of these is
blank; headers, bodies and the docstring of the module do not matter. -/
theorem render_withoutBlanks :
    (∃ kept all, LeavesOut m.emptyDocs kept all ∧
      m.withoutBlanks.module.render = m.style.shown kept ∧
      m.module.render = m.style.shown all) ∧
    (m.withoutBlanks.module.render = m.module.render ↔
      (∀ c ∈ m.classes, (∀ s ∈ c.doc, isBlankText s = false) ∧
        ∀ f ∈ c.methods, ∀ s ∈ f.doc, isBlankText s = false) ∧
      ∀ f ∈ m.functions, ∀ s ∈ f.doc, isBlankText s = false) := by
  have hleaves := m.leavesOut_module
  have hkept := m.withoutBlanks.render_module_lines
  have hall := m.render_module_lines
  refine ⟨⟨_, _, hleaves, hkept, hall⟩, ?_⟩
  rw [hkept, hall, ← emptyDocs_eq_nil_iff]
  exact hleaves.shown_eq_iff m.style

def blankDoc : Manifest where
  info := { name := "m" }
  functions := [{ name := "f", doc := some " " }]

theorem blank_doc_leaves_quotes :
    blankDoc.module.render = "def f():\n    \"\"\"\"\"\"\n    pass\n" ∧
      blankDoc.withoutBlanks.module.render = "def f():\n    pass\n" ∧
      blankDoc.withoutBlanks.module.render ≠ blankDoc.module.render :=
  ⟨by decide +kernel, by decide +kernel, by decide +kernel⟩

end Manifest

end Stencil
