import Stencil.Proofs.Barren
import Stencil.Proofs.Docstring
import Stencil.Proofs.Keywords

/-! A module is never taken for a manifest. Before the first line of code it has empty lines and
comments only, so no manifest is read from what a manifest generates. -/

namespace Stencil

open Document

/-- An empty line, or a comment. -/
def Line.IsIdle (line : Line) : Prop :=
  '\n' ∉ line.text.toList ∧
    (line.text = "" ∨ line.level = 0 ∧ ∃ text, line.text.toList = '#' :: text)

def Line.BeginsCode (line : Line) : Prop :=
  line.level = 0 ∧ Document.BeginsCode line.text.toList

/-- Idle lines, then nothing or a line of code. -/
def Unhurried (ls : List Line) : Prop :=
  ∃ idle rest, ls = idle ++ rest ∧ (∀ line ∈ idle, line.IsIdle) ∧
    ∀ line, rest.head? = some line → line.BeginsCode

theorem Unhurried.append {ls more : List Line} (h : Unhurried ls) (hmore : Unhurried more) :
    Unhurried (ls ++ more) := by
  obtain ⟨idle, rest, rfl, hidle, hrest⟩ := h
  cases rest with
  | nil =>
    obtain ⟨idle', rest', rfl, hidle', hrest'⟩ := hmore
    refine ⟨idle ++ idle', rest', by simp, fun line hl => ?_, hrest'⟩
    exact (List.mem_append.mp hl).elim (hidle line) (hidle' line)
  | cons first rest => exact ⟨idle, first :: (rest ++ more), by simp, hidle, hrest⟩

theorem unhurried_flatMap {es : List Element} {level : Nat}
    (h : ∀ e ∈ es, Unhurried (e.lines level)) : Unhurried (es.flatMap (Element.lines level)) := by
  induction es with
  | nil => exact ⟨[], [], rfl, by simp, by simp⟩
  | cons e es ih =>
    rw [List.flatMap_cons]
    exact (h e List.mem_cons_self).append (ih fun a ha => h a (List.mem_cons_of_mem e ha))

theorem LineEnding.toList_terminator (ending : LineEnding) :
    ending.terminator.toList = ['\n'] ∨ ending.terminator.toList = ['\r', '\n'] := by
  cases ending <;> decide

theorem Line.IsIdle.shown_eq {line : Line} (h : line.IsIdle) (unit : String) :
    line.shown unit 0 = line.text := by
  unfold Line.shown
  rcases h.2 with he | ⟨hlevel, -⟩
  · rw [if_pos he, he]
  · split
    · next he => exact he.symm
    · simp [hlevel]

theorem Line.IsIdle.barren {line : Line} (h : line.IsIdle) (unit : String) (ending : LineEnding)
    {rest : List Char} (hrest : Barren rest) :
    let text := (line.shown unit 0 ++ ending.terminator).toList ++ rest
    Barren text ∧ Unmarked text := by
  simp only [h.shown_eq, String.toList_append]
  obtain ⟨hfeed, he | ⟨-, text, htext⟩⟩ := h
  · rw [he]
    rcases ending.toList_terminator with ht | ht <;> rw [ht]
    · exact ⟨hrest.newline, by simp [Unmarked]⟩
    · have hreturn : '\n' ∉ ([] : List Char) := List.not_mem_nil
      exact ⟨hrest.returns hreturn, by simp [Unmarked]⟩
  · rw [htext] at hfeed ⊢
    refine ⟨?_, by simp [Unmarked]⟩
    have hfeed : '\n' ∉ text := List.not_mem_of_not_mem_cons hfeed
    rcases ending.toList_terminator with ht | ht <;> rw [ht]
    · have hcomment := hrest.comment hfeed
      simpa using hcomment
    · have hreturn : '\n' ∉ text ++ ['\r'] := by simp [hfeed]
      have hcomment := hrest.comment hreturn
      simpa using hcomment

theorem barren_of_unhurried {ls : List Line} (h : Unhurried ls) (unit : String)
    (ending : LineEnding) :
    let text := String.join (ls.map fun line => line.shown unit 0 ++ ending.terminator)
    Barren text.toList ∧ Unmarked text.toList := by
  obtain ⟨idle, rest, rfl, hidle, hrest⟩ := h
  induction idle with
  | nil =>
    cases rest with
    | nil => exact ⟨barren_nil, by simp [Unmarked]⟩
    | cons first rest =>
      obtain ⟨hlevel, hcode⟩ := hrest first rfl
      have hne : first.text ≠ "" := by
        intro he
        exact hcode.ne_nil (by rw [he]; rfl)
      have hshown : first.shown unit 0 = first.text := by
        rw [Line.shown, if_neg hne, hlevel, Nat.add_zero, repeated_zero, String.empty_append]
      simp only [List.nil_append, List.map_cons, String.join_cons, hshown, String.toList_append,
        List.append_assoc]
      exact ⟨(hcode.append _).barren, (hcode.append _).unmarked⟩
  | cons line idle ih =>
    simp only [List.cons_append, List.map_cons, String.join_cons, String.toList_append]
    have hline := (hidle line List.mem_cons_self).barren unit ending
      (ih fun l hl => hidle l (List.mem_cons_of_mem line hl)).1
    simpa using hline

/-! Each part of a module leaves nothing to read before its first line of code. -/

theorem unhurried_of_idle {ls : List Line} (h : ∀ line ∈ ls, line.IsIdle) : Unhurried ls :=
  ⟨ls, [], by simp, h, by simp⟩

theorem unhurried_of_head {ls : List Line} (h : ∀ line, ls.head? = some line → line.BeginsCode) :
    Unhurried ls :=
  ⟨[], ls, rfl, by simp, h⟩

theorem unhurried_gap (count : Nat) : Unhurried ((gap count).lines 0) := by
  have hfeed : Element.lineFeed.lines 0 = [⟨0, ""⟩] := rfl
  have hempty : Line.IsIdle ⟨0, ""⟩ := ⟨by simp, .inl rfl⟩
  rw [gap, Element.lines_seq fun _ => closed_of_mem_gap]
  refine unhurried_flatMap fun e he => unhurried_of_idle ?_
  rcases List.mem_cons.mp he with rfl | he
  · intro line hline
    cases hline
  · rw [List.eq_of_mem_replicate he, hfeed]
    simpa using hempty

theorem newline_not_mem_of_mem_charLines {cs line : List Char} (h : line ∈ charLines cs) :
    '\n' ∉ line := by
  obtain ⟨piece, hpiece, hpre⟩ := exists_piece_of_mem_linesOfPieces h
  exact fun hm => separator_not_mem_splitOn hpiece (hpre.subset hm)

theorem unhurried_comment (s : String) : Unhurried ((Element.comment s).lines 0) := by
  have hlines : Element.comment s =
      .seq (((lines s).map fun l => if l.isEmpty then "#" else "# " ++ l).map .line) := by
    rw [Element.comment, List.map_map]
    rfl
  rw [hlines, Element.lines_lines]
  refine unhurried_of_idle fun line hline => ?_
  simp only [lines, List.map_map, List.mem_map, Function.comp_apply] at hline
  obtain ⟨l, hl, rfl⟩ := hline
  have hfeed : '\n' ∉ l := newline_not_mem_of_mem_charLines hl
  split
  · exact ⟨by decide, .inr ⟨rfl, [], rfl⟩⟩
  · refine ⟨?_, .inr ⟨rfl, ' ' :: l, ?_⟩⟩ <;> simp [hfeed]

theorem unhurried_docstring (s : String) : Unhurried ((Element.docstring s).lines 0) := by
  have hquotes : ∀ rest : String, Line.BeginsCode ⟨0, tripleQuote ++ rest⟩ := by
    intro rest
    refine ⟨rfl, ?_⟩
    rw [String.toList_append]
    exact .quotes rest.toList
  apply unhurried_of_head
  intro line hline
  by_cases h : '\n' ∈ trimBoth s.toList
  · rw [Element.docstring_of_newline h] at hline
    obtain rfl := Option.some.inj hline
    exact hquotes ""
  · rw [Element.docstring_of_no_newline h] at hline
    obtain rfl := Option.some.inj hline
    rw [String.append_assoc]
    exact hquotes _

theorem IsName.exists_first {name : String} (h : IsName name) :
    ∃ c cs, name.toList = c :: cs ∧ punctuation.has c = false := by
  obtain ⟨⟨c, cs, he, -⟩, -⟩ := id h
  exact ⟨c, cs, he, h.not_punctuation (by simp [he])⟩

theorem IsDotted.exists_first {name : String} (h : IsDotted name) :
    ∃ c cs, name.toList = c :: cs ∧ punctuation.has c = false := by
  obtain ⟨parts, hne, hparts, rfl⟩ := h
  rcases parts with _ | ⟨part, parts⟩
  · exact absurd rfl hne
  · obtain ⟨c, cs, hc, hplain⟩ := (hparts part List.mem_cons_self).exists_first
    rw [String.toList_intercalate]
    cases parts with
    | nil => exact ⟨c, cs, by simpa using hc, hplain⟩
    | cons q parts => exact ⟨c, _, by simp [hc]; rfl, hplain⟩

theorem Document.beginsCode_of_word {word : List Char} (hne : word ≠ [])
    (hword : word.all isBareKeyChar = true) {name : List Char}
    (hname : ∃ c cs, name = c :: cs ∧ punctuation.has c = false) (rest : List Char) :
    Document.BeginsCode (word ++ ' ' :: (name ++ rest)) := by
  obtain ⟨c, cs, rfl, hc⟩ := hname
  exact .words hne hword hc (cs ++ rest)

/-- The modules from which anything is imported. -/
def Imports.sources (i : Imports) : List String :=
  i.modules.keys ++ i.symbols.keys

theorem Catalog.mem_keys_update {β : Type} {c : Catalog β} {key name : String}
    {f : Option β → β} (h : name ∈ (c.update key f).keys) : name = key ∨ name ∈ c.keys := by
  have hkeys : (c.update key f).keys = if key ∈ c.keys then c.keys else c.keys ++ [key] :=
    keys_updateEntry key f c.entries
  rw [hkeys] at h
  split at h
  · exact .inr h
  · rcases List.mem_append.mp h with h | h
    · exact .inr h
    · exact .inl (List.mem_singleton.mp h)

theorem Imports.mem_sources_addSymbol {i : Imports} {source symbol name : String}
    (h : name ∈ (i.addSymbol source symbol).sources) : name = source ∨ name ∈ i.sources := by
  rcases List.mem_append.mp h with h | h
  · exact .inr (List.mem_append_left _ h)
  · exact (Catalog.mem_keys_update h).imp_right (List.mem_append_right _)

theorem ImportDecl.mem_sources_addTo {i : ImportDecl} {imports : Imports} {name : String}
    (h : name ∈ (i.addTo imports).sources) : name = i.source ∨ name ∈ imports.sources := by
  unfold addTo at h
  split at h
  · split at h
    all_goals
      rcases List.mem_append.mp h with h | h
      · exact (Catalog.mem_keys_update h).imp_right (List.mem_append_left _)
      · exact .inr (List.mem_append_right _ h)
  · generalize i.symbols = symbols at h
    induction symbols generalizing imports with
    | nil => exact .inr h
    | cons symbol symbols ih =>
      rcases ih h with h | h
      · exact .inl h
      · exact Imports.mem_sources_addSymbol h

theorem Manifest.exists_source_of_mem_sources {m : Manifest} {name : String}
    (h : name ∈ m.collectedImports.sources) : ∃ i ∈ m.imports, name = i.source := by
  have hfold : ∀ (decls : List ImportDecl) (imports : Imports),
      name ∈ (decls.foldl ImportDecl.addTo imports).sources →
        (∃ i ∈ decls, name = i.source) ∨ name ∈ imports.sources := by
    intro decls
    induction decls with
    | nil => exact fun imports hm => .inr hm
    | cons i decls ih =>
      intro imports hm
      rcases ih _ hm with ⟨j, hj, he⟩ | hm
      · exact .inl ⟨j, List.mem_cons_of_mem i hj, he⟩
      · rcases i.mem_sources_addTo hm with he | hm
        · exact .inl ⟨i, List.mem_cons_self, he⟩
        · exact .inr hm
  rcases hfold m.imports {} h with hm | hm
  · exact hm
  · cases hm

theorem unhurried_imports {i : Imports} (h : ∀ name ∈ i.sources, IsDotted name) :
    Unhurried (i.element.lines 0) := by
  have himport : ∀ name ∈ i.sources, ∀ rest : List Char,
      Document.BeginsCode ("import".toList ++ ' ' :: (name.toList ++ rest)) := fun name hn rest =>
    beginsCode_of_word (by decide) (by decide) (h name hn).exists_first rest
  have hfrom : ∀ name ∈ i.sources, ∀ rest : List Char,
      Document.BeginsCode ("from".toList ++ ' ' :: (name.toList ++ rest)) := fun name hn rest =>
    beginsCode_of_word (by decide) (by decide) (h name hn).exists_first rest
  have hall : ∀ s ∈ i.statements, Document.BeginsCode s.toList := by
    intro s hs
    rcases List.mem_append.mp hs with hs | hs
    · obtain ⟨⟨name, localName⟩, he, rfl⟩ := List.mem_map.mp hs
      have hname : name ∈ i.sources := List.mem_append_left _ (List.mem_map.mpr ⟨_, he, rfl⟩)
      cases localName with
      | none => simpa [Imports.moduleLine] using himport name hname []
      | some localName =>
        simpa [Imports.moduleLine] using himport name hname (" as ".toList ++ localName.toList)
    · obtain ⟨⟨name, symbols⟩, he, rfl⟩ := List.mem_map.mp hs
      have hname : name ∈ i.sources := List.mem_append_right _ (List.mem_map.mpr ⟨_, he, rfl⟩)
      simpa [Imports.symbolsLine] using
        hfrom name hname (" import ".toList ++ (", ".intercalate symbols).toList)
  rw [Imports.element, Element.lines_lines]
  apply unhurried_of_head
  intro line hline
  obtain ⟨s, hs, rfl⟩ := List.mem_map.mp (List.mem_of_mem_head? hline)
  exact ⟨rfl, hall s hs⟩

/-- A definition begins with a decorator or with the line that names it. -/
theorem unhurried_of_heading {ds : List Decoration} {text : String} {ls : List Line}
    (h : ds.map (Decoration.line 0) ++ [⟨0, text⟩] <+: ls)
    (hcode : Document.BeginsCode text.toList) : Unhurried ls := by
  obtain ⟨rest, rfl⟩ := h
  apply unhurried_of_head
  intro line hline
  cases ds with
  | nil =>
    obtain rfl := Option.some.inj hline
    exact ⟨rfl, hcode⟩
  | cons d ds =>
    obtain rfl := Option.some.inj hline
    refine ⟨rfl, ?_⟩
    unfold Decoration.line
    rw [String.append_assoc, String.toList_append]
    exact .at _

theorem FunctionDecl.unhurried {f : FunctionDecl} (h : IsName f.name) :
    Unhurried (f.function.element.lines 0) := by
  refine unhurried_of_heading (f.heading_begins_lines 0) ?_
  cases f.isAsync with
  | true =>
    have hdef : ∃ c cs, "def ".toList = c :: cs ∧ punctuation.has c = false :=
      ⟨'d', "ef ".toList, rfl, by decide⟩
    have hasync : ∀ rest, Document.BeginsCode ("async".toList ++ ' ' :: ("def ".toList ++ rest)) :=
      beginsCode_of_word (by decide) (by decide) hdef
    simpa using hasync _
  | false =>
    have hdef : ∀ rest, Document.BeginsCode ("def".toList ++ ' ' :: (f.name.toList ++ rest)) :=
      beginsCode_of_word (by decide) (by decide) h.exists_first
    simpa using hdef _

theorem ClassDecl.unhurried {c : ClassDecl} (h : IsName c.name) :
    Unhurried (c.class.element.lines 0) := by
  have hclass : ∀ rest, Document.BeginsCode ("class".toList ++ ' ' :: (c.name.toList ++ rest)) :=
    beginsCode_of_word (by decide) (by decide) h.exists_first
  refine unhurried_of_heading (c.heading_begins_lines 0) ?_
  simpa using hclass _

theorem Module.unhurried_sections {m : Module}
    (himports : ∀ name ∈ m.imports.sources, IsDotted name) {e : Element} (he : e ∈ m.sections) :
    Unhurried (e.lines 0) := by
  simp only [sections, List.mem_append, Option.mem_toList, Option.map_eq_some_iff] at he
  rcases he with (⟨s, -, rfl⟩ | ⟨s, -, rfl⟩) | he
  · exact unhurried_comment s
  · exact unhurried_docstring s
  · split at he
    · cases he
    · rw [List.mem_singleton.mp he]
      exact unhurried_imports himports

/-- No manifest is read from the module that a manifest describes. -/
theorem Manifest.read_module_ne_ok {m : Manifest} (himports : ∀ i ∈ m.imports, IsDotted i.source)
    (hclasses : ∀ c ∈ m.classes, IsName c.name) (hfunctions : ∀ f ∈ m.functions, IsName f.name)
    (n : Manifest) : Manifest.read m.module.render ≠ .ok n := by
  have hsources : ∀ name ∈ m.module.imports.sources, IsDotted name := by
    intro name hname
    obtain ⟨i, hi, rfl⟩ := m.exists_source_of_mem_sources hname
    exact himports i hi
  have hbody : ∀ e ∈ m.module.body, Unhurried (e.lines 0) := by
    intro e he
    rcases List.mem_append.mp he with he | he
    · obtain ⟨c, hc, rfl⟩ := List.mem_map.mp he
      exact c.unhurried (hclasses c hc)
    · obtain ⟨f, hf, rfl⟩ := List.mem_map.mp he
      exact f.unhurried (hfunctions f hf)
  have hclosed : ∀ e ∈ m.module.body, e.Closed := fun e he => (m.mem_body_module he).2.2
  have hlines : Unhurried (m.module.element.lines 0) := by
    rw [Module.element, Element.lines_seq fun _ => Module.closed_parts hclosed]
    refine unhurried_flatMap fun e he => ?_
    simp only [List.mem_append, List.mem_singleton] at he
    rcases he with (he | he) | rfl
    · rcases eq_or_mem_of_mem_intersperse he with rfl | he
      · exact unhurried_gap 1
      · exact Module.unhurried_sections hsources he
    · rcases Module.mem_definitions he with rfl | he
      · exact unhurried_gap 2
      · exact hbody e he
    · exact unhurried_of_idle fun line hl => by cases hl
  have hbarren := barren_of_unhurried hlines m.style.indent.unit m.style.lineEnding
  have hwhole : m.module.element.Closed := Element.closed_seq fun _ => Module.closed_parts hclosed
  rw [m.render_module_eq, hwhole.shown_page]
  exact Manifest.read_of_barren hbarren.2 hbarren.1 n

end Stencil
