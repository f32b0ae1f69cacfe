import Stencil.Proofs.Acceptance
import Stencil.Proofs.Docstring
import Stencil.Proofs.Keywords
import Stencil.Proofs.Replay

/-! The lines that import symbols. The symbols that the declared imports take from one module are
gathered into one line, however they are spread, and such a line is well formed unless `*` is
among them and another symbol too. -/

namespace Stencil

section Entries

variable {β : Type}

theorem lookup_updateEntry (key : String) (f : Option β → β) (entries : List (String × β))
    (other : String) :
    (updateEntry key f entries).lookup other =
      if other = key then some (f (entries.lookup key)) else entries.lookup other := by
  have hbeq : ∀ a b : String, (a == b) = decide (a = b) := fun _ _ => rfl
  induction entries with
  | nil => by_cases h : other = key <;> simp [updateEntry, List.lookup_cons, hbeq, h]
  | cons entry rest ih =>
    obtain ⟨k, b⟩ := entry
    by_cases hk : k = key
    · by_cases h : other = key
      · simp [updateEntry, hk, h]
      · simp [updateEntry, List.lookup_cons, hbeq, hk, h]
    · have hk' : ¬ key = k := fun he => hk he.symm
      by_cases h : other = k
      · simp [updateEntry, hk, h]
      · simp [updateEntry, List.lookup_cons, hbeq, hk, hk', h, ih]

theorem Catalog.get?_update (c : Catalog β) (key : String) (f : Option β → β) (other : String) :
    (c.update key f).get? other = if other = key then some (f (c.get? key)) else c.get? other :=
  lookup_updateEntry key f c.entries other

theorem lookup_of_mem {entries : List (String × β)} (hnd : (entries.map Prod.fst).Nodup)
    {key : String} {value : β} (h : (key, value) ∈ entries) : entries.lookup key = some value := by
  induction entries with
  | nil => cases h
  | cons entry rest ih =>
    obtain ⟨k, b⟩ := entry
    rw [List.map_cons, List.nodup_cons] at hnd
    rcases List.mem_cons.mp h with he | hm
    · cases he
      exact List.lookup_cons_self
    · have hne : key ≠ k := by
        rintro rfl
        exact hnd.1 (List.mem_map.mpr ⟨_, hm, rfl⟩)
      rw [List.lookup_cons, beq_false_of_ne hne]
      exact ih hnd.2 hm

end Entries

namespace Imports

theorem hasSymbol_addSymbol (i : Imports) (name s other t : String) :
    (i.addSymbol name s).hasSymbol other t = true ↔
      i.hasSymbol other t = true ∨ other = name ∧ t = s := by
  unfold hasSymbol addSymbol
  rw [Catalog.get?_update]
  by_cases h : other = name
  · simp [h, mem_insertSorted, or_comm]
  · simp [h]

theorem mem_symbols_iff {i : Imports} {name : String} {symbols : List String}
    (h : (name, symbols) ∈ i.symbols.entries) (t : String) :
    t ∈ symbols ↔ i.hasSymbol name t = true := by
  have hget : i.symbols.get? name = some symbols := lookup_of_mem i.symbols.distinct h
  simp [hasSymbol, hget]

theorem exists_mem_symbols {i : Imports} {name t : String} (h : i.hasSymbol name t = true) :
    ∃ symbols, (name, symbols) ∈ i.symbols.entries ∧ t ∈ symbols := by
  unfold hasSymbol at h
  cases hg : i.symbols.get? name with
  | none => simp [hg] at h
  | some symbols =>
    obtain ⟨before, after, he, -⟩ := List.lookup_eq_some_iff.mp hg
    exact ⟨symbols, by simp [he], by simpa [hg] using h⟩

end Imports

theorem ImportDecl.listed_addTo {imports : Imports} (h : imports.Listed) (i : ImportDecl) :
    (i.addTo imports).Listed := by
  unfold ImportDecl.addTo
  split
  · split <;> exact h
  · exact List.foldlRecOn i.symbols _ h fun known hk s _ => hk.addSymbol i.source s

theorem ImportDecl.hasSymbol_addTo (imports : Imports) (i : ImportDecl) (source symbol : String) :
    (i.addTo imports).hasSymbol source symbol = true ↔
      imports.hasSymbol source symbol = true ∨ source = i.source ∧ symbol ∈ i.symbols := by
  have hfold : ∀ (symbols : List String) (known : Imports),
      (symbols.foldl (fun known s => known.addSymbol i.source s) known).hasSymbol source symbol =
          true ↔
        known.hasSymbol source symbol = true ∨ source = i.source ∧ symbol ∈ symbols := by
    intro symbols
    induction symbols with
    | nil => simp
    | cons s symbols ih =>
      intro known
      rw [List.foldl_cons, ih, Imports.hasSymbol_addSymbol]
      grind
  unfold ImportDecl.addTo
  split
  · next hnone =>
    have hempty : i.symbols = [] := List.isEmpty_iff.mp hnone
    rw [hempty]
    split <;> simp [Imports.addAlias, Imports.addModule, Imports.hasSymbol]
  · exact hfold i.symbols imports

namespace Manifest

/-- One of the imports takes the symbol from the module. -/
def Declares (m : Manifest) (source symbol : String) : Prop :=
  ∃ i ∈ m.imports, source = i.source ∧ symbol ∈ i.symbols

theorem listed_collectedImports (m : Manifest) : m.collectedImports.Listed :=
  List.foldlRecOn m.imports _ (by simp [Imports.Listed]) fun _ hk i _ => i.listed_addTo hk

theorem hasSymbol_collectedImports (m : Manifest) (source symbol : String) :
    m.collectedImports.hasSymbol source symbol = true ↔ m.Declares source symbol := by
  have hfold : ∀ (decls : List ImportDecl) (known : Imports),
      (decls.foldl ImportDecl.addTo known).hasSymbol source symbol = true ↔
        known.hasSymbol source symbol = true ∨
          ∃ i ∈ decls, source = i.source ∧ symbol ∈ i.symbols := by
    intro decls
    induction decls with
    | nil => simp
    | cons i decls ih =>
      intro known
      rw [List.foldl_cons, ih, ImportDecl.hasSymbol_addTo]
      simp [or_assoc]
  have hnone : ({} : Imports).hasSymbol source symbol = false := rfl
  have hall := hfold m.imports {}
  rw [hnone] at hall
  simpa [collectedImports, Declares] using hall

end Manifest

section Characters

variable {c : Char} {sep : String} {parts : List String}

theorem mem_or_mem_of_mem_intercalate (h : c ∈ (sep.intercalate parts).toList) :
    c ∈ sep.toList ∨ ∃ part ∈ parts, c ∈ part.toList := by
  induction parts with
  | nil => simp at h
  | cons part parts ih =>
    cases parts with
    | nil => exact .inr ⟨part, by simp, by simpa using h⟩
    | cons next parts =>
      rw [String.intercalate_cons_cons, String.toList_append, String.toList_append] at h
      rcases List.mem_append.mp h with h | h
      · rcases List.mem_append.mp h with h | h
        · exact .inr ⟨part, by simp, h⟩
        · exact .inl h
      · rcases ih h with h | ⟨other, hother, h⟩
        · exact .inl h
        · exact .inr ⟨other, List.mem_cons_of_mem part hother, h⟩

theorem mem_intercalate_of_mem {part : String} (hpart : part ∈ parts) (hc : c ∈ part.toList) :
    c ∈ (sep.intercalate parts).toList := by
  induction parts with
  | nil => cases hpart
  | cons first parts ih =>
    cases parts with
    | nil =>
      obtain rfl := List.mem_singleton.mp hpart
      simpa using hc
    | cons next parts =>
      rw [String.intercalate_cons_cons, String.toList_append, String.toList_append]
      rcases List.mem_cons.mp hpart with rfl | hpart
      · simp [hc]
      · exact List.mem_append_right _ (ih hpart)

theorem IsDotted.not_mem {name : String} (h : IsDotted name) (hc : continuesName c = false)
    (hdot : c ≠ '.') : c ∉ name.toList := by
  obtain ⟨parts, -, hparts, rfl⟩ := h
  intro hm
  rcases mem_or_mem_of_mem_intercalate hm with hm | ⟨part, hpart, hm⟩
  · exact hdot (by simpa using hm)
  · exact (hparts part hpart).not_mem hc hm

end Characters

/-- A line that imports from a module: all of it, or names in increasing order. -/
inductive IsFromLine : String → Prop
  | everything {source : String} (h : IsDotted source) :
      IsFromLine ("from " ++ source ++ " import *")
  | names {source : String} {names : List String} (h : IsDotted source) (hne : names ≠ [])
      (hnames : ∀ name ∈ names, IsName name) (hsorted : names.Pairwise (· < ·)) :
      IsFromLine ("from " ++ source ++ " import " ++ ", ".intercalate names)

theorem IsFromLine.comma_not_mem {line : String} (h : IsFromLine line) (hstar : '*' ∈ line.toList) :
    ',' ∉ line.toList := by
  cases h with
  | @everything source hsource =>
    have hcomma : ',' ∉ source.toList := hsource.not_mem (by decide +kernel) (by decide)
    simp [hcomma]
  | @names source names hsource _ hnames _ =>
    have hsource : '*' ∉ source.toList := hsource.not_mem (by decide +kernel) (by decide)
    have hnames : '*' ∉ (", ".intercalate names).toList := by
      intro hm
      rcases mem_or_mem_of_mem_intercalate hm with hm | ⟨name, hname, hm⟩
      · exact absurd hm (by decide)
      · exact (hnames name hname).not_mem (by decide +kernel) hm
    simp only [String.toList_append, List.mem_append] at hstar
    rcases hstar with ((hm | hm) | hm) | hm
    · exact absurd hm (by decide)
    · exact absurd hm hsource
    · exact absurd hm (by decide)
    · exact absurd hm hnames

theorem isFromLine_symbolsLine_iff {source : String} {symbols : List String}
    (hsource : IsDotted source) (hne : symbols ≠ []) (hsorted : symbols.Pairwise (· < ·))
    (hsymbols : ∀ s ∈ symbols, s = "*" ∨ IsName s) :
    IsFromLine (Imports.symbolsLine (source, symbols)) ↔
      ("*" ∈ symbols → ∀ s ∈ symbols, s = "*") := by
  constructor
  · intro hline hstar s hs
    have hmark : '*' ∈ (Imports.symbolsLine (source, symbols)).toList := by
      rw [Imports.symbolsLine, String.toList_append]
      exact List.mem_append_right _ (mem_intercalate_of_mem hstar (by decide))
    -- a second symbol would bring a comma
    have hcomma := hline.comma_not_mem hmark
    match symbols, hne with
    | [only], _ => exact (List.mem_singleton.mp hs).trans (List.mem_singleton.mp hstar).symm
    | first :: second :: rest, _ =>
      exact absurd (by simp [Imports.symbolsLine, String.intercalate_cons_cons]) hcomma
  · intro halone
    by_cases hstar : "*" ∈ symbols
    · have hall := halone hstar
      match symbols, hne with
      | [only], _ =>
        obtain rfl : only = "*" := hall only (by simp)
        have hline : Imports.symbolsLine (source, ["*"]) = "from " ++ source ++ " import *" := by
          simp [Imports.symbolsLine, String.append_assoc]
        rw [hline]
        exact .everything hsource
      | first :: second :: rest, _ =>
        have hlt : first < second := (List.pairwise_cons.mp hsorted).1 second (by simp)
        rw [hall first (by simp), hall second (by simp)] at hlt
        exact absurd hlt (by decide)
    · refine .names hsource hne (fun s hs => ?_) hsorted
      rcases hsymbols s hs with rfl | hname
      · exact absurd hs hstar
      · exact hname

namespace Manifest

def fromLines (m : Manifest) : List String :=
  m.collectedImports.symbols.entries.map Imports.symbolsLine

theorem infix_fromLines (m : Manifest) :
    m.fromLines.map (Line.mk 0) <:+: m.module.element.page.ended := by
  have hclosed : ∀ e ∈ m.module.body, e.Closed := fun e he => (m.mem_body_module he).2.2
  by_cases hempty : m.collectedImports.isEmpty = true
  · have hnone : m.fromLines = [] := by
      simp only [Imports.isEmpty, Catalog.isEmpty, Bool.and_eq_true, List.isEmpty_iff] at hempty
      rw [fromLines, hempty.2, List.map_nil]
    rw [hnone]
    exact List.nil_infix
  · have hsection : m.collectedImports.element ∈ m.module.sections := by
      simp [Module.sections, module, hempty]
    have hlines : m.collectedImports.element.lines 0 =
        m.collectedImports.statements.map (Line.mk 0) := Element.lines_lines _
    have hmodule : m.collectedImports.element.lines 0 <:+: m.module.element.page.ended := by
      apply Element.infix_lines_seq fun _ => Module.closed_parts hclosed
      simp [mem_intersperse_of_mem hsection]
    rw [hlines, Imports.statements, List.map_append] at hmodule
    exact (List.suffix_append _ _).isInfix.trans hmodule

theorem valid_of_mem_imports {m : Manifest} {document : String} (h : m.check document = .ok ())
    {i : ImportDecl} (hi : i ∈ m.imports) : i.Valid := by
  simp only [Manifest.check, bind_eq_ok_iff, checkAll_eq_ok_iff, Scope.checkImport_eq_ok_iff] at h
  exact h.2.1 i hi

/-- In a manifest that passes the check, the lines that import symbols are well formed exactly if
no module has both `*` and another symbol taken from it, in one import or in several. Apart from
that every line names at least one symbol, all that were declared and no other, in increasing
order, and all of these lines stand in the generated module. -/
theorem fromLines_wellFormed_iff {m : Manifest} {document : String}
    (h : m.check document = .ok ()) :
    ((∀ line ∈ m.fromLines, IsFromLine line) ↔
      ∀ source, m.Declares source "*" → ∀ symbol, m.Declares source symbol → symbol = "*") ∧
    (∀ source symbols, (source, symbols) ∈ m.collectedImports.symbols.entries →
      IsDotted source ∧ symbols ≠ [] ∧ symbols.Pairwise (· < ·) ∧
      (∀ s ∈ symbols, s = "*" ∨ IsName s) ∧ ∀ s, s ∈ symbols ↔ m.Declares source s) ∧
    m.fromLines.map (Line.mk 0) <:+: m.module.element.page.ended ∧
    m.module.render =
      m.module.element.page.shown m.style.indent.unit m.style.lineEnding.terminator 0 := by
  have hentry : ∀ source symbols, (source, symbols) ∈ m.collectedImports.symbols.entries →
      IsDotted source ∧ symbols ≠ [] ∧ symbols.Pairwise (· < ·) ∧
        (∀ s ∈ symbols, s = "*" ∨ IsName s) ∧ ∀ s, s ∈ symbols ↔ m.Declares source s := by
    intro source symbols hmem
    have hlisted := m.listed_collectedImports (source, symbols) hmem
    have hdeclares : ∀ s, s ∈ symbols ↔ m.Declares source s := fun s =>
      (Imports.mem_symbols_iff hmem s).trans (m.hasSymbol_collectedImports source s)
    refine ⟨?_, hlisted.1, hlisted.2, fun s hs => ?_, hdeclares⟩
    · obtain ⟨s, hs⟩ := List.exists_mem_of_ne_nil symbols hlisted.1
      obtain ⟨i, hi, rfl, -⟩ := (hdeclares s).mp hs
      exact (valid_of_mem_imports h hi).source
    · obtain ⟨i, hi, -, hmem⟩ := (hdeclares s).mp hs
      exact (valid_of_mem_imports h hi).symbols s hmem
  refine ⟨?_, hentry, m.infix_fromLines, m.render_module_eq⟩
  constructor
  · intro hall source hstar symbol hsymbol
    obtain ⟨symbols, hmem, -⟩ :=
      Imports.exists_mem_symbols ((m.hasSymbol_collectedImports source "*").mpr hstar)
    obtain ⟨hsource, hne, hsorted, hsymbols, hdeclares⟩ := hentry source symbols hmem
    have hline := hall _ (List.mem_map_of_mem hmem)
    rw [isFromLine_symbolsLine_iff hsource hne hsorted hsymbols] at hline
    exact hline ((hdeclares "*").mpr hstar) symbol ((hdeclares symbol).mpr hsymbol)
  · intro hapart line hline
    obtain ⟨⟨source, symbols⟩, hmem, rfl⟩ := List.mem_map.mp hline
    obtain ⟨hsource, hne, hsorted, hsymbols, hdeclares⟩ := hentry source symbols hmem
    rw [isFromLine_symbolsLine_iff hsource hne hsorted hsymbols]
    intro hstar s hs
    exact hapart source ((hdeclares "*").mp hstar) s ((hdeclares s).mp hs)

end Manifest

/-- Symbols of one module in several imports, and everything from another. -/
def spreadSymbols : Manifest where
  info := { name := "m" }
  imports :=
    [{ source := "math", symbols := ["pi", "cos"] }, { source := "sys", symbols := ["*"] },
      { source := "os", localName := some "o" }, { source := "math", symbols := ["acos", "pi"] }]

theorem fromLines_spreadSymbols :
    spreadSymbols.check "" = .ok () ∧
      spreadSymbols.fromLines = ["from math import acos, cos, pi", "from sys import *"] ∧
      ∀ line ∈ spreadSymbols.fromLines, IsFromLine line := by
  have h : spreadSymbols.check "" = .ok () := by decide +kernel
  refine ⟨h, by decide +kernel, (Manifest.fromLines_wellFormed_iff h).1.mpr ?_⟩
  simp [Manifest.Declares, spreadSymbols]

/-- Everything and one symbol more. -/
def starAndSymbol : Manifest where
  info := { name := "m" }
  imports := [{ source := "math", symbols := ["*", "pi"] }]

theorem fromLines_starAndSymbol :
    starAndSymbol.check "" = .ok () ∧
      starAndSymbol.module.render = "from math import *, pi\n" ∧
      starAndSymbol.fromLines = ["from math import *, pi"] ∧
      ¬ IsFromLine "from math import *, pi" :=
  ⟨by decide +kernel, by decide +kernel, by decide +kernel,
    fun h => h.comma_not_mem (by decide) (by decide)⟩

end Stencil
