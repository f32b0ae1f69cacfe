import Stencil.Manifest.Check
import Stencil.Proofs.Names

/-! Which manifests are accepted. A manifest is valid if its names follow the grammar and no
two definitions, methods or parameters in one place share a name, and the check passes
exactly on the valid ones, whatever document it reports faults for. -/

namespace Stencil

structure ImportDecl.Valid (i : ImportDecl) : Prop where
  source : IsDotted i.source
  exclusive : i.localName = none ∨ i.symbols = []
  localName : ∀ name ∈ i.localName, IsName name
  symbols : ∀ symbol ∈ i.symbols, symbol = "*" ∨ IsName symbol

/-- The keyword arguments of a decorator; one that is only named has none. -/
def Decoration.bindings : Decoration → List Binding
  | .named _ => []
  | .call _ _ kwargs => kwargs

structure Decoration.Valid (d : Decoration) : Prop where
  target : IsDotted d.target
  bindings : ∀ b ∈ d.bindings, IsName b.name

/-- The names of positional parameters, in order. Markers introduce none. -/
inductive Introduced : List String → List String → Prop where
  | nil : Introduced [] []
  | marker {arg : String} {args names : List String} (h : IsMarker arg)
      (rest : Introduced args names) : Introduced (arg :: args) names
  | name {arg name : String} {args names : List String} (h : Introduces arg name)
      (rest : Introduced args names) : Introduced (arg :: args) (name :: names)

structure FunctionDecl.Valid (f : FunctionDecl) : Prop where
  name : IsName f.name
  decorators : ∀ d ∈ f.decorators, d.Valid
  args : ∀ arg ∈ f.args, IsParameter arg
  kwargs : ∀ b ∈ f.kwargs, IsName b.name
  distinct : ∀ names, Introduced f.args names → (names ++ f.kwargs.map Binding.name).Nodup

structure ClassDecl.Valid (c : ClassDecl) : Prop where
  name : IsName c.name
  parents : ∀ parent ∈ c.parents, IsDotted parent
  decorators : ∀ d ∈ c.decorators, d.Valid
  attributes : ∀ b ∈ c.attributes, IsName b.name
  distinct : (c.methods.map FunctionDecl.name).Nodup
  methods : ∀ f ∈ c.methods, f.Valid

structure Manifest.Valid (m : Manifest) : Prop where
  name : IsDotted m.info.name
  imports : ∀ i ∈ m.imports, i.Valid
  distinct : (m.classes.map ClassDecl.name ++ m.functions.map FunctionDecl.name).Nodup
  classes : ∀ c ∈ m.classes, c.Valid
  functions : ∀ f ∈ m.functions, f.Valid

theorem exists_introduced {args : List String} (h : ∀ arg ∈ args, IsParameter arg) :
    ∃ names, Introduced args names := by
  induction args with
  | nil => exact ⟨[], .nil⟩
  | cons arg args ih =>
    rw [List.forall_mem_cons] at h
    obtain ⟨names, hrest⟩ := ih h.2
    rcases h.1 with hm | ⟨name, hn⟩
    · exact ⟨names, .marker hm hrest⟩
    · exact ⟨name :: names, .name hn hrest⟩

theorem Introduced.filter_parameterName {args names : List String} (h : Introduced args names) :
    (args.map parameterName).filter (fun name => !name.isEmpty && name != "/") = names := by
  induction h with
  | nil => rfl
  | marker hm _ ih =>
    rcases hm.parameterName_eq with he | he <;> simpa [he] using ih
  | @name _ name _ _ hn _ ih =>
    have hs : name ≠ "/" := by
      rintro rfl
      exact hn.1.not_mem (c := '/') (by decide +kernel) (by decide)
    simpa [hn.parameterName_eq, hn.1.ne_empty, hs] using ih

section Checks

variable {α ε : Type}

theorem bind_eq_ok_iff {x y : Except ε Unit} :
    (x >>= fun _ => y) = .ok () ↔ x = .ok () ∧ y = .ok () := by
  cases x with
  | ok _ => simp [bind, Except.bind]
  | error e => simp [bind, Except.bind]

theorem checkAll_eq_ok_iff (check : α → Except ε Unit) (as : List α) :
    checkAll check as = .ok () ↔ ∀ a ∈ as, check a = .ok () := by
  induction as with
  | nil => simp [checkAll]
  | cons a as ih =>
    rw [List.forall_mem_cons, ← ih, checkAll]
    cases check a with
    | ok _ => simp
    | error e => simp

namespace Scope

theorem checkName_eq_ok_iff (s : Scope) (kind name : String) :
    s.checkName kind name = .ok () ↔ IsName name := by
  rw [← nameFlaw?_eq_none_iff, checkName]
  cases nameFlaw? name <;> simp

theorem checkDotted_eq_ok_iff (s : Scope) (kind name : String) :
    s.checkDotted kind name = .ok () ↔ IsDotted name := by
  rw [← dottedFlaw?_eq_none_iff, checkDotted]
  cases dottedFlaw? name <;> simp

theorem firstRepeated?_eq_none_iff (seen names : List String) :
    firstRepeated? seen names = none ↔ names.Nodup ∧ ∀ name ∈ names, name ∉ seen := by
  induction names generalizing seen with
  | nil => simp [firstRepeated?]
  | cons name names ih =>
    by_cases h : name ∈ seen
    · simp [firstRepeated?, h]
    · rw [List.forall_mem_cons, List.nodup_cons]
      simp only [firstRepeated?, List.contains_eq_mem, h, decide_false, Bool.false_eq_true,
        if_false, ih, List.mem_cons, not_or]
      constructor
      · rintro ⟨hnd, hall⟩
        exact ⟨⟨fun hm => (hall name hm).1 rfl, hnd⟩, not_false, fun a ha => (hall a ha).2⟩
      · rintro ⟨⟨hnm, hnd⟩, -, hall⟩
        exact ⟨hnd, fun a ha => ⟨fun e => hnm (e ▸ ha), hall a ha⟩⟩

theorem checkDistinct_eq_ok_iff (s : Scope) (kind : String) (names : List String) :
    s.checkDistinct kind names = .ok () ↔ names.Nodup := by
  have h := firstRepeated?_eq_none_iff [] names
  simp only [List.not_mem_nil, not_false_eq_true, implies_true, and_true] at h
  rw [← h, checkDistinct]
  cases firstRepeated? [] names <;> simp

theorem checkParameter_eq_ok_iff (s : Scope) (arg : String) :
    s.checkParameter arg = .ok () ↔ IsParameter arg := by
  unfold checkParameter IsParameter
  by_cases hm : IsMarker arg
  · have hm' : trim arg = "/" ∨ trim arg = "*" := hm
    simp [hm, hm']
  · have hm' : ¬ (trim arg = "/" ∨ trim arg = "*") := hm
    simp only [Bool.or_eq_true, decide_eq_true_eq, hm', if_false, checkName_eq_ok_iff, hm,
      false_or]
    constructor
    · exact fun h => ⟨_, introduces_parameterName h⟩
    · rintro ⟨name, h⟩
      rw [h.trim.parameterName_eq]
      exact h.1

theorem checkImport_eq_ok_iff (s : Scope) (i : ImportDecl) :
    s.checkImport i = .ok () ↔ i.Valid := by
  have halias : checkAll (s.checkAlias i) i.localName.toList = .ok () ↔
      (i.localName = none ∨ i.symbols = []) ∧ ∀ name ∈ i.localName, IsName name := by
    rw [checkAll_eq_ok_iff]
    cases hl : i.localName with
    | none => simp
    | some localName =>
      cases hs : i.symbols with
      | nil => simp [checkAlias, hs, checkName_eq_ok_iff]
      | cons symbol symbols => simp [checkAlias, hs]
  have hsymbol : ∀ symbol, s.checkSymbol symbol = .ok () ↔ symbol = "*" ∨ IsName symbol := by
    intro symbol
    unfold checkSymbol
    by_cases h : symbol = "*" <;> simp [h, checkName_eq_ok_iff]
  rw [checkImport, bind_eq_ok_iff, bind_eq_ok_iff, checkDotted_eq_ok_iff, halias,
    checkAll_eq_ok_iff]
  simp only [hsymbol]
  constructor
  · rintro ⟨hsource, ⟨hexclusive, hlocal⟩, hsymbols⟩
    exact ⟨hsource, hexclusive, hlocal, hsymbols⟩
  · rintro ⟨hsource, hexclusive, hlocal, hsymbols⟩
    exact ⟨hsource, ⟨hexclusive, hlocal⟩, hsymbols⟩

theorem checkDecoration_eq_ok_iff (s : Scope) (d : Decoration) :
    s.checkDecoration d = .ok () ↔ d.Valid := by
  have hvalid : d.Valid ↔ IsDotted d.target ∧ ∀ b ∈ d.bindings, IsName b.name :=
    ⟨fun ⟨ht, hb⟩ => ⟨ht, hb⟩, fun ⟨ht, hb⟩ => ⟨ht, hb⟩⟩
  rw [hvalid]
  cases d with
  | named name => simp [checkDecoration, bind_eq_ok_iff, checkDotted_eq_ok_iff, Decoration.bindings]
  | call name args kwargs =>
    simp [checkDecoration, bind_eq_ok_iff, checkDotted_eq_ok_iff, checkAll_eq_ok_iff,
      checkName_eq_ok_iff, Decoration.bindings]

theorem checkFunction_eq_ok_iff (s : Scope) (f : FunctionDecl) :
    s.checkFunction f = .ok () ↔ f.Valid := by
  simp only [checkFunction, bind_eq_ok_iff, checkAll_eq_ok_iff, checkName_eq_ok_iff,
    checkDecoration_eq_ok_iff, checkParameter_eq_ok_iff, checkDistinct_eq_ok_iff]
  constructor
  · rintro ⟨hname, hdecorators, hargs, hkwargs, hdistinct⟩
    refine ⟨hname, hdecorators, hargs, hkwargs, fun names hnames => ?_⟩
    rwa [FunctionDecl.parameterNames, hnames.filter_parameterName] at hdistinct
  · rintro ⟨hname, hdecorators, hargs, hkwargs, hdistinct⟩
    -- all parameters are valid, so their names exist and the distinctness is not vacuous
    obtain ⟨names, hnames⟩ := exists_introduced hargs
    refine ⟨hname, hdecorators, hargs, hkwargs, ?_⟩
    rw [FunctionDecl.parameterNames, hnames.filter_parameterName]
    exact hdistinct names hnames

theorem checkClass_eq_ok_iff (s : Scope) (c : ClassDecl) :
    s.checkClass c = .ok () ↔ c.Valid := by
  simp only [checkClass, bind_eq_ok_iff, checkAll_eq_ok_iff, checkName_eq_ok_iff,
    checkDotted_eq_ok_iff, checkDecoration_eq_ok_iff, checkDistinct_eq_ok_iff,
    checkFunction_eq_ok_iff]
  constructor
  · rintro ⟨hname, hparents, hdecorators, hattributes, hdistinct, hmethods⟩
    exact ⟨hname, hparents, hdecorators, hattributes, hdistinct, hmethods⟩
  · rintro ⟨hname, hparents, hdecorators, hattributes, hdistinct, hmethods⟩
    exact ⟨hname, hparents, hdecorators, hattributes, hdistinct, hmethods⟩

end Scope

/-- The check passes exactly on the valid manifests. -/
theorem Manifest.check_eq_ok_iff_valid (m : Manifest) (document : String) :
    m.check document = .ok () ↔ m.Valid := by
  simp only [Manifest.check, bind_eq_ok_iff, checkAll_eq_ok_iff, Scope.checkDotted_eq_ok_iff,
    Scope.checkImport_eq_ok_iff, Scope.checkDistinct_eq_ok_iff, Scope.checkClass_eq_ok_iff,
    Scope.checkFunction_eq_ok_iff]
  constructor
  · rintro ⟨hname, himports, hdistinct, hclasses, hfunctions⟩
    exact ⟨hname, himports, hdistinct, hclasses, hfunctions⟩
  · rintro ⟨hname, himports, hdistinct, hclasses, hfunctions⟩
    exact ⟨hname, himports, hdistinct, hclasses, hfunctions⟩

end Checks

end Stencil
