import Stencil.Proofs.FromImports
import Stencil.Proofs.Segments
import Stencil.Proofs.Silence

/-! The lines of imports that were built by any steps. What the steps import can be read off them
once the merges are replaced by the steps of what they merge: each step keeps that reading, so
does a whole run of them, and the lines follow from it. -/

namespace Stencil

variable {σ ε : Type}

namespace ImportStep

mutual

/-- The step itself, or the steps of what is merged. -/
def flatten : ImportStep → List ImportStep
  | .merge steps => flattenAll steps
  | step => [step]

def flattenAll : List ImportStep → List ImportStep
  | [] => []
  | step :: steps => step.flatten ++ flattenAll steps

end

/-- The module that is imported as a whole. -/
def module? : ImportStep → Option String
  | .module name => some name
  | .renamed name _ => some name
  | _ => none

def localName? (name : String) : ImportStep → Option String
  | .renamed other localName => if other = name then some localName else none
  | _ => none

/-- The module that a symbol is taken from. -/
def source? : ImportStep → Option String
  | .symbol name _ => some name
  | _ => none

/-- The last alias of a module. -/
def lastName (steps : List ImportStep) (name : String) : Option String :=
  (steps.filterMap (localName? name)).getLast?

/-- The distinct modules that are imported as a whole, by their first occurrences. -/
def moduleNames (steps : List ImportStep) : List String :=
  (steps.filterMap module?).eraseDups

/-- The distinct modules that symbols are taken from, by their first occurrences. -/
def sources (steps : List ImportStep) : List String :=
  (steps.filterMap source?).eraseDups

def moduleLine (steps : List ImportStep) (name : String) : String :=
  "import " ++ name ++ match lastName steps name with
    | some localName => " as " ++ localName
    | none => ""

/-- One line per module, and one per module that symbols are taken from. -/
def lines (steps : List ImportStep) (listed : String → List String) : List String :=
  (moduleNames steps).map (moduleLine steps) ++
    (sources steps).map fun source =>
      "from " ++ source ++ " import " ++ ", ".intercalate (listed source)

section Reading

variable {f : ImportStep → Option String} {steps : List ImportStep} {step : ImportStep}

theorem filterMap_concat_none (h : f step = none) :
    (steps ++ [step]).filterMap f = steps.filterMap f := by
  rw [List.filterMap_append, List.filterMap_cons_none h, List.filterMap_nil, List.append_nil]

theorem filterMap_concat_some {a : String} (h : f step = some a) :
    (steps ++ [step]).filterMap f = steps.filterMap f ++ [a] := by
  rw [List.filterMap_append, List.filterMap_cons_some h, List.filterMap_nil]

end Reading

end ImportStep

theorem eraseDups_concat (l : List String) (a : String) :
    (l ++ [a]).eraseDups = if a ∈ l.eraseDups then l.eraseDups else l.eraseDups ++ [a] := by
  rw [List.eraseDups_append]
  by_cases h : a ∈ l
  · have hnone : [a].removeAll l = [] := by simp [List.removeAll, h]
    rw [hnone, List.eraseDups_nil, List.append_nil, if_pos (List.mem_eraseDups.mpr h)]
  · have hkeep : [a].removeAll l = [a] := by simp [List.removeAll, h]
    rw [hkeep, if_neg (mt List.mem_eraseDups.mp h)]
    rfl

namespace Catalog

variable {β : Type} {c : Catalog β}

theorem keys_update_of_eraseDups {names : List String} (h : c.keys = names.eraseDups)
    (key : String) (f : Option β → β) : (c.update key f).keys = (names ++ [key]).eraseDups := by
  rw [eraseDups_concat, ← h]
  exact keys_updateEntry key f c.entries

/-- A catalog is shown key by key. -/
theorem map_entries {γ : Type} (c : Catalog β) {g : String × β → γ} {f : String → γ}
    (h : ∀ key value, c.get? key = some value → g (key, value) = f key) :
    c.entries.map g = c.keys.map f := by
  rw [keys, List.map_map]
  apply List.map_congr_left
  rintro ⟨key, value⟩ hmem
  exact h key value (lookup_of_mem c.distinct hmem)

end Catalog

namespace Imports

/-- What is collected here can be read off the steps, none of which is a merge. -/
structure Collects (steps : List ImportStep) (i : Imports) : Prop where
  modules : i.modules.keys = ImportStep.moduleNames steps
  names : ∀ name, (i.modules.get? name).getD none = ImportStep.lastName steps name
  sources : i.symbols.keys = ImportStep.sources steps
  symbols : ∀ source s, i.hasSymbol source s = true ↔ .symbol source s ∈ steps

theorem collects_blank : Collects [] .blank where
  modules := rfl
  names _ := rfl
  sources := rfl
  symbols source s := by simp [hasSymbol, blank, Catalog.blank, Catalog.get?]

variable {steps : List ImportStep} {i : Imports}

theorem Collects.addModule (h : Collects steps i) (name : String) :
    Collects (steps ++ [.module name]) (i.addModule name) where
  modules := by
    rw [ImportStep.moduleNames, ImportStep.filterMap_concat_some rfl]
    exact Catalog.keys_update_of_eraseDups h.modules name (·.getD none)
  names other := by
    rw [ImportStep.lastName, ImportStep.filterMap_concat_none rfl]
    have hknown := h.names other
    rw [Imports.addModule, Catalog.get?_update]
    split
    · next he => rwa [he] at hknown ⊢
    · exact hknown
  sources := by
    rw [ImportStep.sources, ImportStep.filterMap_concat_none rfl]
    exact h.sources
  symbols source s := (h.symbols source s).trans (by simp)

theorem Collects.addAlias (h : Collects steps i) (name localName : String) :
    Collects (steps ++ [.renamed name localName]) (i.addAlias name localName) where
  modules := by
    rw [ImportStep.moduleNames, ImportStep.filterMap_concat_some rfl]
    exact Catalog.keys_update_of_eraseDups h.modules name fun _ => some localName
  names other := by
    rw [Imports.addAlias, Catalog.put, Catalog.get?_update]
    by_cases he : other = name
    · have hnew : ImportStep.localName? other (.renamed name localName) = some localName :=
        if_pos he.symm
      rw [ImportStep.lastName, ImportStep.filterMap_concat_some hnew, if_pos he]
      simp
    · have hother : ImportStep.localName? other (.renamed name localName) = none :=
        if_neg fun e => he e.symm
      rw [ImportStep.lastName, ImportStep.filterMap_concat_none hother, if_neg he]
      exact h.names other
  sources := by
    rw [ImportStep.sources, ImportStep.filterMap_concat_none rfl]
    exact h.sources
  symbols source s := (h.symbols source s).trans (by simp)

theorem Collects.addSymbol (h : Collects steps i) (name s : String) :
    Collects (steps ++ [.symbol name s]) (i.addSymbol name s) where
  modules := by
    rw [ImportStep.moduleNames, ImportStep.filterMap_concat_none rfl]
    exact h.modules
  names other := by
    rw [ImportStep.lastName, ImportStep.filterMap_concat_none rfl]
    exact h.names other
  sources := by
    rw [ImportStep.sources, ImportStep.filterMap_concat_some rfl]
    exact Catalog.keys_update_of_eraseDups h.sources name _
  symbols source t := by
    rw [hasSymbol_addSymbol, h.symbols]
    simp

mutual

theorem Collects.apply : (step : ImportStep) → {steps : List ImportStep} → {i : Imports} →
    Collects steps i → Collects (steps ++ step.flatten) (step.apply i)
  | .module name, _, _, h => h.addModule name
  | .renamed name localName, _, _, h => h.addAlias name localName
  | .symbol name s, _, _, h => h.addSymbol name s
  | .merge merged, _, i, h => by
    have hreplay : i.merge (ImportStep.applyAll merged .blank) = ImportStep.applyAll merged i :=
      ImportStep.merge_built merged i
    rw [ImportStep.apply, hreplay]
    exact Collects.applyAll merged h

theorem Collects.applyAll : (more : List ImportStep) → {steps : List ImportStep} →
    {i : Imports} → Collects steps i →
    Collects (steps ++ ImportStep.flattenAll more) (ImportStep.applyAll more i)
  | [], steps, _, h => by
    rw [ImportStep.flattenAll, List.append_nil]
    exact h
  | step :: more, steps, _, h => by
    rw [ImportStep.flattenAll, ← List.append_assoc]
    exact Collects.applyAll more (Collects.apply step h)

end

theorem collects_built (steps : List ImportStep) :
    Collects (ImportStep.flattenAll steps) (built steps) :=
  Collects.applyAll steps collects_blank

/-- The symbols taken from a module, in increasing order. -/
def symbolsOf (i : Imports) (source : String) : List String :=
  (i.symbols.get? source).getD []

theorem Collects.statements_eq (h : Collects steps i) :
    i.statements = ImportStep.lines steps i.symbolsOf := by
  rw [ImportStep.lines, ← h.modules, ← h.sources, statements]
  congr 1
  · apply Catalog.map_entries
    intro name given hget
    have hlast := h.names name
    rw [hget, Option.getD_some] at hlast
    rw [ImportStep.moduleLine, ← hlast]
    cases given with
    | none => exact String.append_empty.symm
    | some localName => simp [moduleLine, String.append_assoc]
  · apply Catalog.map_entries
    intro source symbols hget
    simp [symbolsOf, symbolsLine, hget]

theorem Collects.symbolsOf (h : Collects steps i) (hlisted : i.Listed) {source : String}
    (hs : source ∈ ImportStep.sources steps) :
    i.symbolsOf source ≠ [] ∧ (i.symbolsOf source).Pairwise (· < ·) ∧
      ∀ s, s ∈ i.symbolsOf source ↔ .symbol source s ∈ steps := by
  rw [← h.sources] at hs
  obtain ⟨⟨_, symbols⟩, hmem, rfl⟩ := List.mem_map.mp hs
  have hget : i.symbols.get? _ = some symbols := lookup_of_mem i.symbols.distinct hmem
  rw [Imports.symbolsOf, hget, Option.getD_some]
  refine ⟨(hlisted _ hmem).1, (hlisted _ hmem).2, fun s => ?_⟩
  rw [mem_symbols_iff hmem, h.symbols]

theorem size_eq_length_statements (i : Imports) : i.size = i.statements.length := by
  simp [size, statements, Catalog.size]

theorem ne_empty_of_mem_statements {i : Imports} {line : String} (h : line ∈ i.statements) :
    line ≠ "" := by
  rcases List.mem_append.mp h with h | h
  · obtain ⟨⟨name, given⟩, -, rfl⟩ := List.mem_map.mp h
    cases given <;> simp [moduleLine, String.append_eq_empty_iff]
  · obtain ⟨entry, -, rfl⟩ := List.mem_map.mp h
    simp [symbolsLine, String.append_eq_empty_iff]

end Imports

/-- At depth 0 every line is offered as it is, and its terminator after it. -/
theorem offered_lines (unit terminator : String) {ls : List String} (hls : ∀ s ∈ ls, s ≠ "") :
    offered unit terminator true (Operation.traceAll (ls.map .writeLine) 0).events =
      ls.flatMap fun s => [s, terminator] := by
  induction ls with
  | nil => rfl
  | cons s ls ih =>
    have hs : s ≠ "" := hls s (by simp)
    have hrest := ih fun t ht => hls t (by simp [ht])
    simp [Operation.traceAll, Operation.trace, Trace.append, offered, Event.texts,
      Event.startAfter, hs, hrest]

theorem elements_writeLine (ls : List String) :
    Operation.elements (ls.map .writeLine) = ls.map .line := by
  induction ls with
  | nil => rfl
  | cons s ls ih =>
    rw [List.map_cons, Operation.elements, ih]
    rfl

theorem join_flatMap_ended (ls : List String) (terminator : String) :
    String.join (ls.flatMap fun s => [s, terminator]) = String.join (ls.map (· ++ terminator)) := by
  induction ls with
  | nil => rfl
  | cons s ls ih => simp [ih, String.append_assoc]

namespace Imports

theorem map_target_emit (i : Imports) (out : Sink σ ε) (style : Style) (target : σ) :
    (i.element.emit out (Writer.ofStyle style target)).map Writer.target =
      out.appendAll (i.statements.flatMap fun line => [line, style.lineEnding.terminator])
        target := by
  have htraces := Operation.traces_emit (i.statements.map .writeLine) out
    (Writer.ofStyle style target)
  rw [elements_writeLine] at htraces
  have hreached := htraces.reached
  rw [← offered_lines style.indent.unit _ fun _ => ne_empty_of_mem_statements]
  exact hreached

theorem render_eq (i : Imports) (style : Style) :
    i.element.render style =
      String.join (i.statements.map (· ++ style.lineEnding.terminator)) := by
  have htext := i.map_target_emit (Sink.text : Sink String Empty) style ""
  rw [Sink.appendAll_text, String.empty_append, join_flatMap_ended] at htext
  have hstate := congrArg Outcome.state htext
  rwa [Outcome.state_map] at hstate

/-- Imports that were built by any steps are written as the lines that can be read off these steps
once the merges are flattened, and the size is the number of the lines. The symbols on a line are
all that were imported from its module, in increasing order. -/
theorem render_built (steps : List ImportStep) (style : Style) :
    let flat := ImportStep.flattenAll steps
    ∃ listed : String → List String,
      (∀ source ∈ ImportStep.sources flat,
        listed source ≠ [] ∧ (listed source).Pairwise (· < ·) ∧
        ∀ s, s ∈ listed source ↔ .symbol source s ∈ flat) ∧
      (built steps).element.render style =
        String.join ((ImportStep.lines flat listed).map (· ++ style.lineEnding.terminator)) ∧
      (∀ (out : Sink σ ε) target,
        ((built steps).element.emit out (Writer.ofStyle style target)).map Writer.target =
          out.appendAll ((ImportStep.lines flat listed).flatMap fun line =>
            [line, style.lineEnding.terminator]) target) ∧
      (built steps).size = (ImportStep.lines flat listed).length ∧
      ((built steps).isEmpty = true ↔ ImportStep.lines flat listed = []) ∧
      ∀ source s, (built steps).hasSymbol source s = true ↔ .symbol source s ∈ flat := by
  intro flat
  have h : Collects flat (built steps) := collects_built steps
  refine ⟨(built steps).symbolsOf, fun source => h.symbolsOf (listed_built steps), ?_, ?_, ?_, ?_,
    h.symbols⟩
  all_goals rw [← h.statements_eq]
  · exact (built steps).render_eq style
  · exact fun out target => (built steps).map_target_emit out style target
  · exact (built steps).size_eq_length_statements
  · exact (built steps).statements_eq_nil_iff.symm

example : (built [.symbol "m" "t", .module "a", .merge [.renamed "a" "x", .symbol "m" "s"],
    .module "b", .renamed "a" "y", .module "a", .symbol "m" "t"]).element.render .plain =
    "import a as y\nimport b\nfrom m import s, t\n" := by
  decide +kernel

end Imports

end Stencil
