import Stencil.Proofs.Acceptance
import Stencil.Proofs.Composition

/-! The items of parameter lists and of decorator calls, from a manifest to the lines of its
module. Keywords are collected under their names, so a list is shown in full exactly when no
two of its keywords share a name. The check makes sure of this for functions and methods, and
leaves it open for decorators. -/

namespace Stencil

theorem updateEntry_of_not_mem {β : Type} {key : String} {entries : List (String × β)}
    (f : Option β → β) (h : key ∉ entries.map Prod.fst) :
    updateEntry key f entries = entries ++ [(key, f none)] := by
  induction entries with
  | nil => rfl
  | cons entry rest ih =>
    simp only [List.map_cons, List.mem_cons, not_or] at h
    have hne : entry.1 ≠ key := fun he => h.1 he.symm
    simp [updateEntry, hne, ih h.2]

namespace Parameters

theorem positional_kwargs (p : Parameters) (pairs : List (String × String)) :
    (p.kwargs pairs).positional = p.positional := by
  induction pairs generalizing p with
  | nil => rfl
  | cons pair pairs ih => exact ih (p.kwarg pair.1 pair.2)

theorem keys_kwarg (p : Parameters) (name value : String) :
    (p.kwarg name value).keyword.keys =
      if name ∈ p.keyword.keys then p.keyword.keys else p.keyword.keys ++ [name] :=
  keys_updateEntry name _ p.keyword.entries

theorem entries_kwargs {p : Parameters} {pairs : List (String × String)}
    (h : (p.keyword.keys ++ pairs.map Prod.fst).Nodup) :
    (p.kwargs pairs).keyword.entries = p.keyword.entries ++ pairs := by
  induction pairs generalizing p with
  | nil => simp [kwargs]
  | cons pair pairs ih =>
    obtain ⟨name, value⟩ := pair
    have hnew : name ∉ p.keyword.keys := by
      intro hm
      rw [List.nodup_append] at h
      exact h.2.2 name hm name (by simp) rfl
    have hentries : (p.kwarg name value).keyword.entries = p.keyword.entries ++ [(name, value)] :=
      updateEntry_of_not_mem _ hnew
    have hnext : ((p.kwarg name value).keyword.keys ++ pairs.map Prod.fst).Nodup := by
      rw [keys_kwarg, if_neg hnew]
      simpa using h
    have hrest := ih hnext
    rw [hentries, List.append_assoc] at hrest
    exact hrest

/-- Every pair gets an entry of its own exactly when the names are new and distinct. -/
theorem size_kwargs (p : Parameters) (pairs : List (String × String)) :
    (p.kwargs pairs).keyword.keys.length ≤ p.keyword.keys.length + pairs.length ∧
      ((p.kwargs pairs).keyword.keys.length = p.keyword.keys.length + pairs.length ↔
        (p.keyword.keys ++ pairs.map Prod.fst).Nodup) := by
  induction pairs generalizing p with
  | nil => simpa [kwargs, Catalog.keys] using p.keyword.distinct
  | cons pair pairs ih =>
    obtain ⟨name, value⟩ := pair
    obtain ⟨hle, hiff⟩ := ih (p.kwarg name value)
    rw [keys_kwarg] at hle hiff
    have hstep : p.kwargs ((name, value) :: pairs) = (p.kwarg name value).kwargs pairs := rfl
    rw [hstep]
    by_cases hm : name ∈ p.keyword.keys
    · -- the pair only replaces a value, so one entry is missing from here on
      rw [if_pos hm] at hle
      have hdup : ¬ (p.keyword.keys ++ ((name, value) :: pairs).map Prod.fst).Nodup := by
        intro hnd
        rw [List.nodup_append] at hnd
        exact hnd.2.2 name hm name (by simp) rfl
      simp only [hdup, iff_false, List.length_cons]
      omega
    · rw [if_neg hm] at hle hiff
      simp only [List.length_append, List.length_cons, List.length_nil] at hle hiff ⊢
      have hassoc : p.keyword.keys ++ [name] ++ pairs.map Prod.fst =
          p.keyword.keys ++ ((name, value) :: pairs).map Prod.fst := by simp
      rw [hassoc] at hiff
      rw [← hiff]
      omega

end Parameters

section Headings

theorem Page.write_write (page : Page) (level : Nat) (s t : String) :
    (page.write level s).write level t = page.write level (s ++ t) := by
  by_cases hs : s = ""
  · simp [Page.write, hs]
  · by_cases ht : t = ""
    · simp [Page.write, ht]
    · cases hc : page.current <;> simp [Page.write, hs, ht, hc, String.append_assoc]

namespace Element

theorem layAll_append (xs ys : List Element) (level : Nat) (page : Page) :
    layAll (xs ++ ys) level page = layAll ys level (layAll xs level page) := by
  induction xs generalizing page with
  | nil => rfl
  | cons e xs ih => exact ih (e.lay level page)

theorem layAll_texts (texts : List String) (level : Nat) (page : Page) :
    layAll (texts.map .text) level page = page.write level (String.join texts) := by
  induction texts generalizing page with
  | nil => simp [layAll, Page.write]
  | cons s texts ih =>
    rw [List.map_cons, layAll, ih, String.join_cons, ← Page.write_write]
    rfl

def oneLine (texts : List String) : Element :=
  .seq (texts.map .text ++ [.lineFeed])

theorem closed_oneLine (texts : List String) : (oneLine texts).Closed := by
  intro level
  rw [oneLine, lay, layAll_append]
  rfl

theorem lines_oneLine {texts : List String} (h : String.join texts ≠ "") (level : Nat) :
    (oneLine texts).lines level = [⟨level, String.join texts⟩] := by
  rw [lines, oneLine, lay, layAll_append, layAll_texts]
  simp [layAll, lay, Page.write, Page.lineFeed, h]

theorem closed_indented {es : List Element} (h : ∀ e ∈ es, e.Closed) :
    (Element.indented es).Closed := by
  intro level
  rw [lay, layAll_of_closed h]
  rfl

theorem lines_block {header : Element} (hh : header.Closed) (children : List Element)
    (level : Nat) : (Element.block header children .pass .empty).lines level =
      header.lines level ++ (Element.body children .pass).lines level := by
  have hlay : (Element.block header children .pass .empty).lay level .blank =
      (Element.body children .pass).lay level (header.lay level .blank) := rfl
  rw [lines, hlay, hh.lay_eq, lay_below]
  rfl

theorem infix_lines_seq {es : List Element} (h : ∀ e ∈ es, e.Closed) {e : Element}
    (he : e ∈ es) (level : Nat) : e.lines level <:+: (Element.seq es).lines level := by
  rw [lines_seq h, List.flatMap_def]
  exact List.infix_of_mem_flatten (List.mem_map_of_mem he)

theorem infix_lines_body {children : List Element} (h : ∀ e ∈ children, e.Closed) {e : Element}
    (he : e ∈ children) {level : Nat} (hne : e.lines (level + 1) ≠ []) :
    e.lines (level + 1) <:+: (Element.body children .pass).lines level := by
  have hin := infix_lines_seq h he (level + 1)
  -- children that show something keep the placeholder out
  have hinner : layAll children (level + 1) .blank ≠ .blank := by
    intro hempty
    have hnil : (Element.seq children).lines (level + 1) = [] := by
      rw [lines, lay, hempty, Page.ended_blank]
    rw [hnil] at hin
    exact hne (List.infix_nil.mp hin)
  have hbody : (Element.body children .pass).lines level =
      (Element.seq children).lines (level + 1) := by
    simp only [lines, lay]
    rw [if_neg hinner, layAll_of_closed h]
    rfl
  rwa [hbody]

end Element

theorem closed_docElement (doc : Option String) : (docElement doc).Closed := by
  apply Element.closed_indented
  intro e he
  obtain ⟨s, _, rfl⟩ := Option.map_eq_some_iff.mp (Option.mem_toList.mp he)
  exact Element.closed_docstring s

theorem Decorator.lay_element (d : Decorator) (level : Nat) (page : Page) :
    d.element.lay level page =
      (Element.oneLine
        ["@" ++ d.name, (d.arguments.map Parameters.text).getD ""]).lay level page := by
  unfold Decorator.element
  cases d.arguments with
  | none => simp [Element.oneLine, Element.lay, Element.layAll, Element.empty, Page.write]
  | some p => rfl

theorem Function.lay_header (f : Function) (level : Nat) (page : Page) :
    f.header.lay level page =
      (Element.seq (f.decorators.map Decorator.element ++
        [.oneLine [(if f.isAsync then "async " else "") ++ "def " ++ f.name ++ f.params.text,
          (f.returns.map (" -> " ++ ·)).getD "", ":"], docElement f.doc])).lay level page := by
  unfold Function.header
  cases f.returns with
  | none => simp [Element.oneLine, Element.lay, Element.layAll, Element.layAll_append, Page.write]
  | some r => simp [Element.oneLine, Element.lay, Element.layAll, Element.layAll_append]

theorem Class.lay_header (c : Class) (level : Nat) (page : Page) :
    c.header.lay level page =
      (Element.seq (c.decorators.map Decorator.element ++
        [.oneLine ["class " ++ c.name ++ "(" ++ c.bases ++ "):"], docElement c.doc])).lay level
          page := by
  simp [Class.header, Element.oneLine, Element.lay, Element.layAll, Element.layAll_append]

theorem Element.closed_of_lay_eq {e a : Element}
    (h : ∀ level page, e.lay level page = a.lay level page) (ha : a.Closed) : e.Closed := by
  intro level
  rw [h]
  exact ha level

theorem Element.lines_of_lay_eq {e a : Element}
    (h : ∀ level page, e.lay level page = a.lay level page) (level : Nat) :
    e.lines level = a.lines level := by
  rw [lines, h]
  rfl

theorem Decorator.closed_element (d : Decorator) : d.element.Closed :=
  Element.closed_of_lay_eq d.lay_element (Element.closed_oneLine _)

theorem Decorator.lines_element (d : Decorator) (level : Nat) :
    d.element.lines level =
      [⟨level, "@" ++ d.name ++ (d.arguments.map Parameters.text).getD ""⟩] := by
  rw [Element.lines_of_lay_eq d.lay_element, Element.lines_oneLine]
  · simp [String.append_assoc]
  · simp

theorem closed_of_mem_header {decorators : List Decorator} {texts : List String}
    {doc : Option String} {e : Element}
    (he : e ∈ decorators.map Decorator.element ++ [.oneLine texts, docElement doc]) :
    e.Closed := by
  simp only [List.mem_append, List.mem_map, List.mem_cons, List.not_mem_nil, or_false] at he
  rcases he with ⟨d, _, rfl⟩ | rfl | rfl
  · exact d.closed_element
  · exact Element.closed_oneLine texts
  · exact closed_docElement doc

theorem Function.closed_header (f : Function) : f.header.Closed :=
  Element.closed_of_lay_eq f.lay_header (Element.closed_seq fun _ => closed_of_mem_header)

theorem Function.lines_element (f : Function) (level : Nat) :
    f.element.lines level = f.header.lines level ++ (Element.body f.body .pass).lines level :=
  Element.lines_block f.closed_header f.body level

theorem Class.closed_header (c : Class) : c.header.Closed :=
  Element.closed_of_lay_eq c.lay_header (Element.closed_seq fun _ => closed_of_mem_header)

theorem Class.lines_element (c : Class) (level : Nat) :
    c.element.lines level = c.header.lines level ++ (Element.body c.body .pass).lines level :=
  Element.lines_block c.closed_header c.body level

theorem lines_header (decorators : List Decorator) (texts : List String)
    (h : String.join texts ≠ "") (doc : Option String) (level : Nat) :
    ∃ rest, (Element.seq
        (decorators.map Decorator.element ++ [.oneLine texts, docElement doc])).lines level =
      decorators.map (fun d =>
        ⟨level, "@" ++ d.name ++ (d.arguments.map Parameters.text).getD ""⟩)
        ++ ⟨level, String.join texts⟩ :: rest := by
  refine ⟨(docElement doc).lines level, ?_⟩
  have hdecorators : (decorators.map Decorator.element).flatMap (Element.lines level) =
      decorators.map fun d =>
        ⟨level, "@" ++ d.name ++ (d.arguments.map Parameters.text).getD ""⟩ := by
    induction decorators with
    | nil => rfl
    | cons d decorators ih => simp [ih, Decorator.lines_element]
  rw [Element.lines_seq fun _ => closed_of_mem_header, List.flatMap_append, hdecorators]
  simp [Element.lines_oneLine h]

end Headings

def Binding.shown (b : Binding) : String :=
  b.name ++ "=" ++ b.value

def listed (items : List String) : String :=
  "(" ++ ", ".intercalate items ++ ")"

theorem Parameters.text_eq (p : Parameters) : p.text = listed p.items := by
  simp [Parameters.text, Parameters.shown, listed, String.append_assoc]

section Items

variable (args : List String) (bindings : List Binding)

theorem keys_bindingPairs : (bindingPairs bindings).map Prod.fst = bindings.map Binding.name := by
  simp [bindingPairs, Function.comp_def]

theorem items_kwargs (h : (bindings.map Binding.name).Nodup) :
    ((({} : Parameters).args args).kwargs (bindingPairs bindings)).items =
      args ++ bindings.map Binding.shown := by
  have hentries : ((({} : Parameters).args args).kwargs (bindingPairs bindings)).keyword.entries =
      bindingPairs bindings := by
    apply Parameters.entries_kwargs
    rw [keys_bindingPairs]
    exact h
  rw [Parameters.items, Parameters.positional_kwargs, hentries]
  simp [Parameters.args, bindingPairs, Function.comp_def, Binding.shown]

/-- No keyword is lost exactly when their names are distinct. -/
theorem length_items_kwargs :
    ((({} : Parameters).args args).kwargs (bindingPairs bindings)).items.length =
      args.length + bindings.length ↔ (bindings.map Binding.name).Nodup := by
  have hsize := ((({} : Parameters).args args).size_kwargs (bindingPairs bindings)).2
  have hnone : (({} : Parameters).args args).keyword.keys = [] := rfl
  have hpairs : (bindingPairs bindings).length = bindings.length := by simp [bindingPairs]
  have hlength : ((({} : Parameters).args args).kwargs (bindingPairs bindings)).items.length =
      args.length
        + ((({} : Parameters).args args).kwargs (bindingPairs bindings)).keyword.keys.length := by
    simp [Parameters.items, Parameters.positional_kwargs, Parameters.args, Catalog.keys]
  rw [hnone, keys_bindingPairs, hpairs, List.length_nil, Nat.zero_add, List.nil_append] at hsize
  rw [hlength, ← hsize]
  omega

end Items

def Decoration.args : Decoration → List String
  | .named _ => []
  | .call _ args _ => args

/-- What stands between the parentheses of the call. -/
def Decoration.items (d : Decoration) : List String :=
  (d.decorator.arguments.map Parameters.items).getD []

def FunctionDecl.items (f : FunctionDecl) : List String :=
  f.function.params.items

def Decoration.line (level : Nat) (d : Decoration) : Line where
  level := level
  text := "@" ++ d.target ++ match d with
    | .named _ => ""
    | .call _ _ _ => listed d.items

/-- The lines of a definition up to its name and its parameters. -/
def FunctionDecl.heading (level : Nat) (f : FunctionDecl) : List Line :=
  f.decorators.map (Decoration.line level) ++
    [⟨level, (if f.isAsync then "async " else "") ++ "def " ++ f.name ++ listed f.items
      ++ (f.returns.map (" -> " ++ ·)).getD "" ++ ":"⟩]

def ClassDecl.heading (level : Nat) (c : ClassDecl) : List Line :=
  c.decorators.map (Decoration.line level) ++
    [⟨level, "class " ++ c.name ++ "(" ++ c.class.bases ++ "):"⟩]

theorem Decoration.map_line (level : Nat) (ds : List Decoration) :
    ((ds.map Decoration.decorator).map fun d =>
      (⟨level, "@" ++ d.name ++ (d.arguments.map Parameters.text).getD ""⟩ : Line)) =
      ds.map (Decoration.line level) := by
  rw [List.map_map]
  apply List.map_congr_left
  intro d _
  cases d with
  | named name => rfl
  | call name args kwargs =>
    simp [Decoration.line, Decoration.decorator, Decoration.target, Decoration.items,
      Parameters.text_eq]

theorem FunctionDecl.heading_begins_lines (f : FunctionDecl) (level : Nat) :
    f.heading level <+: f.function.element.lines level := by
  obtain ⟨rest, hrest⟩ := lines_header f.function.decorators
    [(if f.function.isAsync then "async " else "") ++ "def " ++ f.function.name
      ++ f.function.params.text, (f.function.returns.map (" -> " ++ ·)).getD "", ":"]
    (by simp) f.function.doc level
  rw [Function.lines_element, Element.lines_of_lay_eq f.function.lay_header, hrest]
  obtain ⟨body, -, he⟩ := f.function_eq
  have hitems : f.function.params.text = listed f.items := Parameters.text_eq _
  refine ⟨rest ++ (Element.body f.function.body .pass).lines level, ?_⟩
  rw [hitems, heading, he]
  simp only [Decoration.map_line]
  simp [String.append_assoc]

theorem ClassDecl.heading_begins_lines (c : ClassDecl) (level : Nat) :
    c.heading level <+: c.class.element.lines level := by
  obtain ⟨rest, hrest⟩ := lines_header c.class.decorators
    ["class " ++ c.class.name ++ "(" ++ c.class.bases ++ "):"] (by simp) c.class.doc level
  rw [Class.lines_element, Element.lines_of_lay_eq c.class.lay_header, hrest]
  refine ⟨rest ++ (Element.body c.class.body .pass).lines level, ?_⟩
  rw [heading, c.class_eq]
  simp only [Decoration.map_line]
  simp [String.append_assoc]

theorem ClassDecl.closed_of_mem_members {c : ClassDecl} {e : Element} (h : e ∈ c.members) :
    e.Closed := by
  rcases cases_of_mem_members h with ⟨b, _, rfl⟩ | rfl | ⟨f, _, rfl⟩
  · exact Element.closed_line _
  · exact fun _ => rfl
  · exact Element.closed_block _ _

theorem ClassDecl.infix_method {c : ClassDecl} {f : FunctionDecl} (hf : f ∈ c.methods) :
    f.function.element.lines 1 <:+: c.class.element.lines 0 := by
  have hchildren : ∀ e ∈ c.class.body, e.Closed := by
    rw [c.class_eq]
    exact fun _ => closed_of_mem_members
  have hmem : f.function.element ∈ c.class.body := by
    rw [c.class_eq]
    exact method_mem_members hf
  have hne : f.function.element.lines 1 ≠ [] := by
    intro hnil
    have hp := f.heading_begins_lines 1
    rw [hnil, List.prefix_nil] at hp
    simp [FunctionDecl.heading] at hp
  rw [Class.lines_element]
  exact (Element.infix_lines_body hchildren hmem hne).trans (List.suffix_append _ _).isInfix

namespace Manifest

def allFunctions (m : Manifest) : List FunctionDecl :=
  m.functions ++ m.classes.flatMap ClassDecl.methods

def decorations (m : Manifest) : List Decoration :=
  m.classes.flatMap ClassDecl.decorators ++ m.allFunctions.flatMap FunctionDecl.decorators

theorem infix_definition {m : Manifest} {e : Element} (he : e ∈ m.module.body) :
    e.lines 0 <:+: m.module.element.page.ended := by
  have hclosed : ∀ e ∈ m.module.body, e.Closed := fun e he => (m.mem_body_module he).2.2
  apply Element.infix_lines_seq fun _ => Module.closed_parts hclosed
  simp [Module.mem_definitions_of_mem_body he]

theorem valid_of_mem_allFunctions {m : Manifest} {document : String}
    (h : m.check document = .ok ()) {f : FunctionDecl} (hf : f ∈ m.allFunctions) : f.Valid := by
  simp only [Manifest.check, bind_eq_ok_iff, checkAll_eq_ok_iff, Scope.checkClass_eq_ok_iff,
    Scope.checkFunction_eq_ok_iff] at h
  obtain ⟨-, -, -, hclasses, hfunctions⟩ := h
  rcases List.mem_append.mp hf with hf | hf
  · exact hfunctions f hf
  · obtain ⟨c, hc, hf⟩ := List.mem_flatMap.mp hf
    exact (hclasses c hc).methods f hf

end Manifest

theorem FunctionDecl.Valid.nodup_kwargs {f : FunctionDecl} (h : f.Valid) :
    (f.kwargs.map Binding.name).Nodup := by
  obtain ⟨names, hnames⟩ := exists_introduced h.args
  exact (List.nodup_append.mp (h.distinct names hnames)).2.1

/-- Item by item what was declared. -/
def FunctionDecl.InFull (f : FunctionDecl) : Prop :=
  f.items = f.args ++ f.kwargs.map Binding.shown ∧
    f.items.length = f.args.length + f.kwargs.length

def Decoration.InFull (d : Decoration) : Prop :=
  d.items = d.args ++ d.bindings.map Binding.shown ∧
    d.items.length = d.args.length + d.bindings.length

def Manifest.InFull (m : Manifest) : Prop :=
  (∀ f ∈ m.allFunctions, f.InFull) ∧ ∀ d ∈ m.decorations, d.InFull

theorem FunctionDecl.inFull {f : FunctionDecl} (h : (f.kwargs.map Binding.name).Nodup) :
    f.InFull := by
  obtain ⟨body, -, he⟩ := f.function_eq
  have hitems : f.items = f.args ++ f.kwargs.map Binding.shown := by
    rw [items, he]
    exact items_kwargs f.args f.kwargs h
  exact ⟨hitems, by simp [hitems]⟩

theorem Decoration.inFull_iff (d : Decoration) :
    d.InFull ↔ (d.bindings.map Binding.name).Nodup := by
  cases d with
  | named name => simp [InFull, items, args, bindings, decorator]
  | call name args kwargs =>
    constructor
    · rintro ⟨-, hlength⟩
      exact (length_items_kwargs args kwargs).mp hlength
    · intro h
      exact ⟨items_kwargs args kwargs h, (length_items_kwargs args kwargs).mpr h⟩

/-- An accepted manifest shows every item that it declares exactly when no decorator repeats a
keyword. Parameter lists of functions and methods are always shown in full. The items stand
in the headings of the definitions, and these stand among the lines of the module. -/
theorem Manifest.inFull_iff_of_check {m : Manifest} {document : String}
    (h : m.check document = .ok ()) :
    (m.InFull ↔ ∀ d ∈ m.decorations, (d.bindings.map Binding.name).Nodup) ∧
      (∀ f ∈ m.allFunctions, f.InFull) ∧
      (∀ f ∈ m.functions, f.heading 0 <:+: m.module.element.page.ended) ∧
      (∀ c ∈ m.classes, c.heading 0 <:+: m.module.element.page.ended ∧
        ∀ f ∈ c.methods, f.heading 1 <:+: m.module.element.page.ended) ∧
      m.module.render =
        m.module.element.page.shown m.style.indent.unit m.style.lineEnding.terminator 0 := by
  have hfunctions : ∀ f ∈ m.allFunctions, f.InFull := fun f hf =>
    FunctionDecl.inFull (Manifest.valid_of_mem_allFunctions h hf).nodup_kwargs
  have hdecorations : (∀ d ∈ m.decorations, d.InFull) ↔
      ∀ d ∈ m.decorations, (d.bindings.map Binding.name).Nodup := by
    simp only [Decoration.inFull_iff]
  refine ⟨?_, hfunctions, fun f hf => ?_, fun c hc => ⟨?_, fun f hf => ?_⟩, m.render_module_eq⟩
  · rw [← hdecorations]
    exact and_iff_right hfunctions
  · have hmem : f.function.element ∈ m.module.body :=
      List.mem_append_right _ (List.mem_map_of_mem hf)
    exact (f.heading_begins_lines 0).isInfix.trans (infix_definition hmem)
  · have hmem : c.class.element ∈ m.module.body :=
      List.mem_append_left _ (List.mem_map_of_mem hc)
    exact (c.heading_begins_lines 0).isInfix.trans (infix_definition hmem)
  · have hmem : c.class.element ∈ m.module.body :=
      List.mem_append_left _ (List.mem_map_of_mem hc)
    exact (f.heading_begins_lines 1).isInfix.trans
      ((ClassDecl.infix_method hf).trans (infix_definition hmem))

/-- A class with a decorator call, and in it a method with both kinds of parameters. -/
def decoratedMethod : Manifest where
  info := { name := "m" }
  classes :=
    [{ name := "C"
       decorators := [.call "table" ["1"] [⟨"a", "2"⟩, ⟨"b", "3"⟩]]
       methods := [{ name := "f", args := ["self", "*"], kwargs := [⟨"x", "0"⟩, ⟨"y", "1"⟩] }] }]

theorem inFull_decoratedMethod :
    decoratedMethod.check "" = .ok () ∧ decoratedMethod.InFull ∧
      decoratedMethod.allFunctions.map FunctionDecl.items = [["self", "*", "x=0", "y=1"]] ∧
      decoratedMethod.decorations.map Decoration.items = [["1", "a=2", "b=3"]] := by
  have h : decoratedMethod.check "" = .ok () := by decide +kernel
  exact ⟨h, (Manifest.inFull_iff_of_check h).1.mpr (by decide), by decide, by decide⟩

/-- A decorator that gives one keyword twice. -/
def repeatedKeyword : Manifest where
  info := { name := "m" }
  functions := [{ name := "f", decorators := [.call "d" [] [⟨"a", "1"⟩, ⟨"a", "2"⟩]] }]

theorem not_inFull_repeatedKeyword :
    repeatedKeyword.check "" = .ok () ∧ ¬ repeatedKeyword.InFull ∧
      repeatedKeyword.module.render = "@d(a=2)\ndef f():\n    pass\n" := by
  have h : repeatedKeyword.check "" = .ok () := by decide +kernel
  have hdup : ¬ repeatedKeyword.InFull := by
    rintro ⟨-, hd⟩
    have hd := (Decoration.inFull_iff _).mp (hd _ (.head _))
    exact absurd hd (by decide)
  exact ⟨h, hdup, by decide +kernel⟩

end Stencil
