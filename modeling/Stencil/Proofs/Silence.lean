import Stencil.Proofs.Keywords
import Stencil.Proofs.Placement

/-! Elements that write nothing. An element of the library is silent by its make-up alone, and any
other writes at least one byte from the start of a line. -/

namespace Stencil

variable {σ ε : Type}

/-- The library elements that write nothing at the start of a line. -/
inductive Element.Silent : Element → Prop
  | absent : Silent .empty
  | text : Silent (.text "")
  | stack {ls : List String} (h : ls = [] ∨ ls = [""]) : Silent (.stack ls)
  | comment : Silent (.comment "")
  | seq {parts : List Element} (h : ∀ e ∈ parts, Silent e) : Silent (.seq parts)
  | imports {i : Imports} (h : i.isEmpty = true) : Silent i.element
  | module {m : Module} (hheader : m.header = none) (hdoc : m.doc = none)
      (himports : m.imports.isEmpty = true) (hone : m.body.length ≤ 1)
      (hbody : ∀ e ∈ m.body, Silent e) : Silent m.element
  /-- A header without text, which `Module.withHeader` never leaves. -/
  | emptyHeader {m : Module} (hheader : m.header = some "") (hdoc : m.doc = none)
      (himports : m.imports.isEmpty = true) (hbody : m.body = []) : Silent m.element

section Silence

variable {out : Sink σ ε} {flush : Writer σ → Outcome ε (Writer σ)} {w : Writer σ}

theorem Element.runAll_eq_done {es : List Element} (h : ∀ e ∈ es, e.run out flush w = .done w) :
    Element.runAll out flush es w = .done w := by
  induction es with
  | nil => rfl
  | cons e es ih =>
    rw [Element.runAll, h e (by simp), Outcome.andThen_done]
    exact ih fun a ha => h a (by simp [ha])

theorem Imports.statements_eq_nil_iff (i : Imports) : i.statements = [] ↔ i.isEmpty = true := by
  simp [Imports.statements, Imports.isEmpty, Catalog.isEmpty]

theorem Module.sections_eq_nil_iff (m : Module) :
    m.sections = [] ↔ m.header = none ∧ m.doc = none ∧ m.imports.isEmpty = true := by
  simp [Module.sections]

theorem Module.definitions_eq_body {m : Module} (hs : m.sections = [])
    (hone : m.body.length ≤ 1) : m.definitions = m.body := by
  rw [Module.definitions, hs, List.isEmpty_nil, if_pos rfl]
  match hb : m.body with
  | [] => rfl
  | [e] => rfl
  | a :: b :: rest =>
    rw [hb] at hone
    simp at hone

theorem Element.Silent.run_eq {e : Element} (h : e.Silent) (hs : w.atLineStart = true) :
    e.run out flush w = .done w := by
  have hfresh : Element.freshLine.run out flush w = .done w := by
    simp [Element.run, Writer.freshLine, hs]
  have htext : (Element.text "").run out flush w = .done w := by
    simp [Element.run, Writer.write]
  induction h with
  | absent => rfl
  | text => exact htext
  | stack hls =>
    rcases hls with rfl | rfl
    · rfl
    · have hall : ∀ e ∈ [Element.text ""], e.run out flush w = .done w := by simpa using htext
      exact Element.runAll_eq_done hall
  | comment => rfl
  | seq _ ih => exact Element.runAll_eq_done ih
  | @imports i hi =>
    rw [Imports.element, i.statements_eq_nil_iff.mpr hi]
    rfl
  | @module m hheader hdoc himports hone _ ih =>
    have hsections := m.sections_eq_nil_iff.mpr ⟨hheader, hdoc, himports⟩
    rw [Module.element, hsections, Module.definitions_eq_body hsections hone]
    apply Element.runAll_eq_done
    intro e he
    simp only [List.intersperse_nil, List.nil_append, List.mem_append, List.mem_singleton] at he
    rcases he with he | rfl
    · exact ih e he
    · exact hfresh
  | @emptyHeader m hheader hdoc himports hbody =>
    have hsections : m.sections = [.comment ""] := by
      simp [Module.sections, hheader, hdoc, himports]
    have hdefinitions : m.definitions = [] := by
      simp [Module.definitions, hbody]
    rw [Module.element, hsections, hdefinitions]
    apply Element.runAll_eq_done
    intro e he
    simp only [List.intersperse_singleton, List.append_nil, List.cons_append, List.nil_append,
      List.mem_cons, List.not_mem_nil, or_false] at he
    rcases he with rfl | rfl
    · rfl
    · exact hfresh

end Silence

section Speaking

theorem Page.Extends.antisymm {terminator : String} {p q : Page}
    (h : p.Extends terminator q) (h' : q.Extends terminator p) : q = p := by
  rcases h with h | h
  · exact h
  · rcases h' with h' | h'
    · exact h'.symm
    · omega

namespace Element

/-- Adds something to every page. -/
def Speaks (e : Element) : Prop :=
  ∀ level page, e.lay level page ≠ page

theorem speaks_text {s : String} (h : s ≠ "") : (Element.text s).Speaks := by
  intro level page he
  have hsize : (page.write level s).size "" = page.size "" := congrArg (Page.size "") he
  have hbytes := mt String.utf8ByteSize_eq_zero_iff.mp h
  rw [Page.size_write] at hsize
  omega

theorem speaks_lineFeed : Element.lineFeed.Speaks := by
  intro level page he
  have hsize : page.lineFeed.size "\n" = page.size "\n" := congrArg (Page.size "\n") he
  have hbytes : "\n".utf8ByteSize = 1 := by decide
  rw [Page.size_lineFeed] at hsize
  omega

/-- What plain elements have added together is never taken back by those that follow. -/
theorem lay_eq_self_of_layAll {es : List Element} (hp : ∀ e ∈ es, e.Plain) {level : Nat}
    {page : Page} (h : layAll es level page = page) : ∀ e ∈ es, e.lay level page = page := by
  induction es with
  | nil => exact fun e he => nomatch he
  | cons a es ih =>
    have hfirst : page.Extends "\n" (a.lay level page) :=
      (hp a (by simp)).extends_lay (by decide) level page
    have hrest : (a.lay level page).Extends "\n" (layAll es level (a.lay level page)) :=
      extends_layAll level (fun e he => (hp e (by simp [he])).extends_lay (by decide) level) _
    rw [layAll] at h
    rw [h] at hrest
    have hsame := hfirst.antisymm hrest
    rw [hsame] at h
    intro e he
    rcases List.mem_cons.mp he with rfl | he
    · exact hsame
    · exact ih (fun b hb => hp b (by simp [hb])) h e he

theorem Plain.of_seq {es : List Element} (h : (Element.seq es).Plain) : ∀ e ∈ es, e.Plain := by
  cases h with
  | seq h => exact h

theorem speaks_seq {es : List Element} (hp : (Element.seq es).Plain) {e : Element} (he : e ∈ es)
    (hs : e.Speaks) : (Element.seq es).Speaks :=
  fun level page h => hs level page (lay_eq_self_of_layAll hp.of_seq h e he)

theorem speaks_line (s : String) : (Element.line s).Speaks :=
  speaks_seq (flat_line s).plain (by simp) speaks_lineFeed

theorem speaks_lines {ls : List String} (h : ls ≠ []) : (Element.seq (ls.map .line)).Speaks := by
  obtain ⟨l, hl⟩ := List.exists_mem_of_ne_nil ls h
  exact speaks_seq (flat_lines ls).plain (List.mem_map_of_mem hl) (speaks_line l)

theorem speaks_docstring (s : String) : (Element.docstring s).Speaks := by
  have hp := (flat_docstring s).plain
  simp only [docstring] at hp ⊢
  split
  · next hlines =>
    rw [if_pos hlines] at hp
    exact speaks_seq hp (by simp) (speaks_line tripleQuote)
  · exact speaks_line _

theorem charLines_ne_nil {cs : List Char} (h : cs ≠ []) : charLines cs ≠ [] := by
  cases cs with
  | nil => exact absurd rfl h
  | cons c cs =>
    have hne : splitOn '\n' cs ≠ [] := splitOn_ne_nil cs
    obtain ⟨p, ps, hs⟩ := List.exists_cons_of_ne_nil hne
    by_cases hc : c = '\n'
    · simp [charLines, pieces, splitOn, hc, hs, linesOfPieces]
    · cases ps with
      | nil => simp [charLines, pieces, splitOn, hc, hs, linesOfPieces]
      | cons q ps => simp [charLines, pieces, splitOn, hc, hs, linesOfPieces]

theorem speaks_comment {s : String} (h : s ≠ "") : (Element.comment s).Speaks := by
  have hchars : s.toList ≠ [] := by simpa using h
  have hlines : Stencil.lines s ≠ [] := by simpa [Stencil.lines] using charLines_ne_nil hchars
  obtain ⟨l, hl⟩ := List.exists_mem_of_ne_nil _ hlines
  exact speaks_seq (flat_comment s).plain (List.mem_map_of_mem hl) (speaks_line _)

theorem speaks_block {header : Element} {children : List Element}
    (hp : (Element.block header children .pass .empty).Plain) (hs : header.Speaks) :
    (Element.block header children .pass .empty).Speaks :=
  speaks_seq hp (by simp) hs

theorem silent_of_stack {ls : List String} {level : Nat}
    (h : (Element.stack ls).lay level .blank = .blank) : (Element.stack ls).Silent := by
  match ls with
  | [] => exact .stack (.inl rfl)
  | [s] =>
    by_cases hs : s = ""
    · exact .stack (.inr (by rw [hs]))
    · exact absurd h (speaks_seq (flat_stack [s]).plain (by simp) (speaks_text hs) level .blank)
  | s :: t :: rest =>
    exact absurd h (speaks_seq (flat_stack (s :: t :: rest)).plain (by simp) speaks_lineFeed
      level .blank)

end Element

theorem Decorator.speaks_element (d : Decorator) : d.element.Speaks :=
  Element.speaks_seq d.flat_element.plain (by simp) Element.speaks_lineFeed

theorem Function.plain_header (f : Function) : f.header.Plain := by
  obtain ⟨parts, hparts, he⟩ := f.header_eq
  rw [he]
  exact plain_seq_docElement hparts f.doc

theorem Class.plain_header (c : Class) : c.header.Plain := by
  obtain ⟨parts, hparts, he⟩ := c.header_eq
  rw [he]
  exact plain_seq_docElement hparts c.doc

theorem Function.speaks_header (f : Function) : f.header.Speaks :=
  Element.speaks_seq f.plain_header (by simp) Element.speaks_lineFeed

theorem Class.speaks_header (c : Class) : c.header.Speaks :=
  Element.speaks_seq c.plain_header (by simp) Element.speaks_lineFeed

theorem Branch.speaks_element {b : Branch} {keyword : String} (hp : (b.element keyword).Plain) :
    (b.element keyword).Speaks :=
  Element.speaks_seq hp (by simp) Element.speaks_lineFeed

theorem Imports.speaks_element {i : Imports} (h : i.isEmpty = false) : i.element.Speaks := by
  apply Element.speaks_lines
  intro hnil
  rw [i.statements_eq_nil_iff.mp hnil] at h
  cases h

theorem speaks_gap {count : Nat} (h : 0 < count) : (gap count).Speaks :=
  Element.speaks_seq (flat_gap count).plain
    (List.mem_cons_of_mem _ (List.mem_replicate.mpr ⟨by omega, rfl⟩)) Element.speaks_lineFeed

theorem Module.gap_mem_definitions {m : Module}
    (h : m.sections ≠ [] ∧ m.body ≠ [] ∨ 1 < m.body.length) : gap 2 ∈ m.definitions := by
  unfold definitions
  split
  · next hs =>
    rcases h with h | h
    · exact absurd (List.isEmpty_iff.mp hs) h.1
    · match hb : m.body with
      | [] | [_] =>
        rw [hb] at h
        simp at h
      | a :: b :: rest => simp [List.intersperse]
  · have hne : m.body ≠ [] := by
      rcases h with h | h
      · exact h.2
      · exact List.ne_nil_of_length_pos (by omega)
    obtain ⟨e, he⟩ := List.exists_mem_of_ne_nil m.body hne
    exact List.mem_flatMap.mpr ⟨e, he, by simp⟩

theorem Module.silent_of_lay_eq {m : Module} {level : Nat} (hp : ∀ e ∈ m.body, e.Plain)
    (hbody : ∀ e ∈ m.body, e.lay level .blank = .blank → e.Silent)
    (h : m.element.lay level .blank = .blank) : m.element.Silent := by
  have hparts := Element.lay_eq_self_of_layAll (Module.plain_element hp).of_seq h
  have hsection : ∀ e ∈ m.sections, e.lay level .blank = .blank := fun e he =>
    hparts e (by simp [mem_intersperse_of_mem he])
  have hgap : ¬ (m.sections ≠ [] ∧ m.body ≠ [] ∨ 1 < m.body.length) := fun hg =>
    speaks_gap (by decide) level .blank (hparts (gap 2) (by simp [gap_mem_definitions hg]))
  simp only [not_or, not_and, Nat.not_lt, Decidable.not_not] at hgap
  have hdoc : m.doc = none := by
    cases hd : m.doc with
    | none => rfl
    | some s =>
      exact absurd (hsection (.docstring s) (by simp [sections, hd]))
        (Element.speaks_docstring s level .blank)
  have himports : m.imports.isEmpty = true := by
    cases hi : m.imports.isEmpty with
    | true => rfl
    | false =>
      exact absurd (hsection m.imports.element (by simp [sections, hi]))
        (Imports.speaks_element hi level .blank)
  cases hheader : m.header with
  | none =>
    refine .module hheader hdoc himports hgap.2 fun e he => hbody e he ?_
    exact hparts e (by simp [mem_definitions_of_mem_body he])
  | some s =>
    have hmem : Element.comment s ∈ m.sections := by simp [sections, hheader]
    have hs : s = "" := Decidable.byContradiction fun hs =>
      Element.speaks_comment hs level .blank (hsection _ hmem)
    exact .emptyHeader (by rw [hheader, hs]) hdoc himports (hgap.1 (List.ne_nil_of_mem hmem))

/-- A library element that is not silent speaks at the start of a line. -/
theorem Element.Built.silent_of_lay_eq {e : Element} (h : e.Built) {level : Nat}
    (hl : e.lay level .blank = .blank) : e.Silent := by
  have hspeaks : ∀ {a : Element}, a.Speaks → a.lay level .blank = .blank → a.Silent :=
    fun hs ha => absurd ha (hs level .blank)
  induction h with
  | absent => exact .absent
  | text s =>
    by_cases hs : s = ""
    · rw [hs]
      exact .text
    · exact hspeaks (speaks_text hs) hl
  | stack ls => exact silent_of_stack hl
  | line s => exact hspeaks (speaks_line s) hl
  | blankLine => exact hspeaks (speaks_seq flat_blankLine.plain (by simp) speaks_lineFeed) hl
  | @seq parts hparts ih =>
    have heach := lay_eq_self_of_layAll (fun e he => (hparts e he).plain) hl
    exact .seq fun e he => ih e he (heach e he)
  | pass => exact hspeaks (speaks_line "pass") hl
  | assign target value => exact hspeaks (speaks_line _) hl
  | returns value => cases value <;> exact hspeaks (speaks_line _) hl
  | comment s =>
    by_cases hs : s = ""
    · rw [hs]
      exact .comment
    · exact hspeaks (speaks_comment hs) hl
  | docstring s => exact hspeaks (speaks_docstring s) hl
  | parameters p =>
    have hne : p.text ≠ "" := by simp [Parameters.text, Parameters.shown]
    exact hspeaks (speaks_text hne) hl
  | decorator d => exact hspeaks d.speaks_element hl
  | functionDef f hb =>
    have hp : f.element.Plain := Function.plain_element fun e he => (hb e he).plain
    exact hspeaks (speaks_block hp f.speaks_header) hl
  | classDef c hb =>
    have hp : c.element.Plain := Class.plain_element fun e he => (hb e he).plain
    exact hspeaks (speaks_block hp c.speaks_header) hl
  | conditional keyword c hc hb ho =>
    have hp : (c.elementAs keyword).Plain := (Built.conditional keyword c hc hb ho).plain
    have hfirst : c.first.element keyword ∈ c.first.element keyword ::
        c.elifs.map (Branch.element "elif") ++ (c.otherwise.map otherwiseElement).toList := by simp
    exact hspeaks (speaks_seq hp hfirst (Branch.speaks_element (hp.of_seq _ hfirst))) hl
  | otherwise body hb =>
    have hp : (otherwiseElement body).Plain := plain_otherwiseElement fun e he => (hb e he).plain
    exact hspeaks (speaks_seq hp (by simp) (speaks_line "else:")) hl
  | imports i =>
    cases hi : i.isEmpty with
    | true => exact .imports hi
    | false => exact hspeaks (Imports.speaks_element hi) hl
  | module m hb ih =>
    exact Module.silent_of_lay_eq (fun e he => (hb e he).plain) ih hl

end Speaking

end Stencil
