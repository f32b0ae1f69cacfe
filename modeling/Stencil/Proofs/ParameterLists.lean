import Stencil.Proofs.ImportLines
import Stencil.Proofs.Retries

/-! Parameter lists that were built by any steps. Positional items and keywords are kept apart, so
how the steps of one kind stand among those of the other makes no difference, and a list is
determined by what its steps add of either kind. -/

namespace Stencil

inductive ParameterStep where
  | arg (name : String)
  | args (names : List String)
  | kwarg (name value : String)
  | kwargs (pairs : List (String × String))

namespace ParameterStep

def apply : ParameterStep → Parameters → Parameters
  | .arg name, p => p.arg name
  | .args names, p => p.args names
  | .kwarg name value, p => p.kwarg name value
  | .kwargs pairs, p => p.kwargs pairs

def items : ParameterStep → List String
  | .arg name => [name]
  | .args names => names
  | .kwarg _ _ | .kwargs _ => []

def pairs : ParameterStep → List (String × String)
  | .arg _ | .args _ => []
  | .kwarg name value => [(name, value)]
  | .kwargs pairs => pairs

/-- Steps that differ in how they are split or joined, or in the places of the keywords among the
positional items. -/
inductive Regrouped : List ParameterStep → List ParameterStep → Prop
  | refl (steps : List ParameterStep) : Regrouped steps steps
  | symm {steps others : List ParameterStep} (h : Regrouped steps others) : Regrouped others steps
  | trans {steps middle others : List ParameterStep} (h : Regrouped steps middle)
      (h' : Regrouped middle others) : Regrouped steps others
  | append {steps others more rest : List ParameterStep} (h : Regrouped steps others)
      (h' : Regrouped more rest) : Regrouped (steps ++ more) (others ++ rest)
  | args (names : List String) : Regrouped [.args names] (names.map .arg)
  | kwargs (pairs : List (String × String)) :
      Regrouped [.kwargs pairs] (pairs.map fun pair => .kwarg pair.1 pair.2)
  | swap {first second : ParameterStep} (hfirst : first.pairs = []) (hsecond : second.items = []) :
      Regrouped [first, second] [second, first]

theorem Regrouped.same_additions {steps others : List ParameterStep} (h : Regrouped steps others) :
    steps.flatMap items = others.flatMap items ∧ steps.flatMap pairs = others.flatMap pairs := by
  induction h with
  | refl steps => exact ⟨rfl, rfl⟩
  | symm h ih => exact ⟨ih.1.symm, ih.2.symm⟩
  | trans h h' ih ih' => exact ⟨ih.1.trans ih'.1, ih.2.trans ih'.2⟩
  | append h h' ih ih' => simp only [List.flatMap_append, ih, ih', and_self]
  | args names => simp [items, pairs, List.flatMap_map]
  | kwargs given => simp [items, pairs, List.flatMap_map]
  | swap hfirst hsecond => simp [hfirst, hsecond]

end ParameterStep

namespace Parameters

def blank : Parameters :=
  ⟨[], .blank _⟩

def ofSteps (steps : List ParameterStep) : Parameters :=
  steps.foldl (fun p step => step.apply p) blank

theorem args_kwargs (p : Parameters) (names : List String) (pairs : List (String × String)) :
    (p.kwargs pairs).args names = (p.args names).kwargs pairs := by
  induction pairs generalizing p with
  | nil => rfl
  | cons pair pairs ih => exact ih (p.kwarg pair.1 pair.2)

theorem kwargs_kwargs (p : Parameters) (pairs more : List (String × String)) :
    (p.kwargs pairs).kwargs more = p.kwargs (pairs ++ more) :=
  List.foldl_append.symm

theorem args_args (p : Parameters) (names more : List String) :
    (p.args names).args more = p.args (names ++ more) := by
  simp [args, List.append_assoc]

theorem apply_eq (step : ParameterStep) (p : Parameters) :
    step.apply p = (p.args step.items).kwargs step.pairs := by
  cases step with
  | arg name => rfl
  | args names => rfl
  | kwarg name value =>
    simp [ParameterStep.apply, ParameterStep.items, ParameterStep.pairs, args, kwargs]
  | kwargs pairs => simp [ParameterStep.apply, ParameterStep.items, ParameterStep.pairs, args]

theorem foldl_apply (steps : List ParameterStep) (p : Parameters) :
    steps.foldl (fun p step => step.apply p) p =
      (p.args (steps.flatMap ParameterStep.items)).kwargs (steps.flatMap ParameterStep.pairs) := by
  induction steps generalizing p with
  | nil => simp [args, kwargs]
  | cons step steps ih =>
    rw [List.foldl_cons, ih, apply_eq, args_kwargs, args_args, kwargs_kwargs, List.flatMap_cons,
      List.flatMap_cons]

theorem ofSteps_eq (steps : List ParameterStep) :
    ofSteps steps =
      (blank.args (steps.flatMap ParameterStep.items)).kwargs
        (steps.flatMap ParameterStep.pairs) :=
  foldl_apply steps blank

/-- The name was given this value, and none since. -/
def LastGiven (pairs : List (String × String)) (name value : String) : Prop :=
  ∃ before after, pairs = before ++ (name, value) :: after ∧ name ∉ after.map Prod.fst

theorem lastGiven_concat_self (pairs : List (String × String)) (name value : String) :
    LastGiven (pairs ++ [(name, value)]) name value :=
  ⟨pairs, [], rfl, by simp⟩

theorem LastGiven.concat {pairs : List (String × String)} {name value other : String}
    (h : LastGiven pairs name value) (hne : name ≠ other) (given : String) :
    LastGiven (pairs ++ [(other, given)]) name value := by
  obtain ⟨before, after, rfl, hafter⟩ := h
  exact ⟨before, after ++ [(other, given)], by simp, by simpa [hne] using hafter⟩

/-- The keywords hold what the pairs give: the names by their first occurrences, the values by
their last. -/
structure Keeps (pairs : List (String × String)) (keyword : Catalog String) : Prop where
  names : keyword.keys = (pairs.map Prod.fst).eraseDups
  values : ∀ name value, keyword.get? name = some value → LastGiven pairs name value

theorem Keeps.put {pairs : List (String × String)} {keyword : Catalog String}
    (h : Keeps pairs keyword) (name value : String) :
    Keeps (pairs ++ [(name, value)]) (keyword.put name value) where
  names := by
    rw [List.map_append]
    exact Catalog.keys_update_of_eraseDups h.names name fun _ => value
  values other given hget := by
    rw [Catalog.put, Catalog.get?_update] at hget
    by_cases he : other = name
    · rw [if_pos he, Option.some.injEq] at hget
      rw [he, ← hget]
      exact lastGiven_concat_self pairs name value
    · rw [if_neg he] at hget
      exact (h.values other given hget).concat he value

theorem Keeps.kwargs {p : Parameters} {pairs : List (String × String)} (h : Keeps pairs p.keyword)
    (more : List (String × String)) : Keeps (pairs ++ more) (p.kwargs more).keyword := by
  induction more generalizing p pairs with
  | nil => rwa [List.append_nil]
  | cons pair more ih =>
    have hput : Keeps (pairs ++ [pair]) (p.kwarg pair.1 pair.2).keyword := h.put pair.1 pair.2
    have hrest := ih hput
    rwa [List.append_assoc] at hrest

theorem keeps_ofSteps (steps : List ParameterStep) :
    Keeps (steps.flatMap ParameterStep.pairs) (ofSteps steps).keyword := by
  have hnone : Keeps [] (blank.args (steps.flatMap ParameterStep.items)).keyword :=
    ⟨rfl, fun _ _ h => by cases h⟩
  rw [ofSteps_eq]
  exact hnone.kwargs _

theorem positional_ofSteps (steps : List ParameterStep) :
    (ofSteps steps).positional = steps.flatMap ParameterStep.items := by
  rw [ofSteps_eq, positional_kwargs]
  exact List.nil_append _

theorem size_eq_length_items (p : Parameters) : p.size = p.items.length := by
  simp [size, items, Catalog.size]

theorem isEmpty_iff_items (p : Parameters) : p.isEmpty = true ↔ p.items = [] := by
  simp [isEmpty, items, Catalog.isEmpty]

theorem render_element (p : Parameters) (style : Style) : p.element.render style = p.text := by
  have hne : p.text ≠ "" := by simp [text, shown]
  have hwrite : p.element.emit (Sink.text : Sink String Empty) (Writer.ofStyle style "") =
      (Writer.ofStyle style "").write Sink.text p.text := rfl
  rw [Element.render, hwrite, Writer.write_text _ hne]
  show "" ++ repeated style.indent.unit 0 ++ p.text = p.text
  simp

/-- A list built by any steps shows the positional items in the order in which they were added and
then every keyword once, in the place where its name came first and with the value that it was
given last. The size is the number of these items. Steps that are split, joined or moved past
steps of the other kind build the same list. -/
theorem text_ofSteps (steps : List ParameterStep) (style : Style) :
    let pairs := steps.flatMap ParameterStep.pairs
    ∃ given : List (String × String),
      given.map Prod.fst = (pairs.map Prod.fst).eraseDups ∧
      (∀ pair ∈ given, LastGiven pairs pair.1 pair.2) ∧
      let items := steps.flatMap ParameterStep.items ++
        given.map fun pair => pair.1 ++ "=" ++ pair.2
      (ofSteps steps).text = "(" ++ ", ".intercalate items ++ ")" ∧
      (ofSteps steps).element.render style = "(" ++ ", ".intercalate items ++ ")" ∧
      (ofSteps steps).size = items.length ∧
      ((ofSteps steps).isEmpty = true ↔ items = []) ∧
      ∀ others, ParameterStep.Regrouped steps others → ofSteps others = ofSteps steps := by
  intro pairs
  have hkeeps : Keeps pairs (ofSteps steps).keyword := keeps_ofSteps steps
  have hitems : (ofSteps steps).items = steps.flatMap ParameterStep.items ++
      (ofSteps steps).keyword.entries.map fun pair => pair.1 ++ "=" ++ pair.2 := by
    rw [items, positional_ofSteps]
  refine ⟨(ofSteps steps).keyword.entries, hkeeps.names, fun pair hpair => ?_, ?_, ?_, ?_, ?_,
    fun others h => ?_⟩
  · exact hkeeps.values _ _ (lookup_of_mem (ofSteps steps).keyword.distinct hpair)
  · rw [← hitems, text_eq, listed]
  · rw [← hitems, render_element, text_eq, listed]
  · rw [← hitems, size_eq_length_items]
  · rw [← hitems, isEmpty_iff_items]
  · rw [ofSteps_eq, ofSteps_eq, h.same_additions.1, h.same_additions.2]

/-- A keyword between positional items that is given again at the end. -/
theorem text_ofSteps_repeated :
    let steps : List ParameterStep :=
      [.args ["a", "b"], .kwarg "x" "1", .kwargs [("y", "2"), ("x", "3")]]
    let others : List ParameterStep :=
      [.arg "a", .kwarg "x" "1", .arg "b", .kwarg "y" "2", .kwarg "x" "3"]
    ParameterStep.Regrouped steps others ∧ (ofSteps steps).text = "(a, b, x=3, y=2)" ∧
      ofSteps others = ofSteps steps := by
  intro steps others
  have hregrouped : ParameterStep.Regrouped steps others := by
    have hargs : ParameterStep.Regrouped [.args ["a", "b"]] [.arg "a", .arg "b"] := .args _
    have hkwargs : ParameterStep.Regrouped [.kwargs [("y", "2"), ("x", "3")]]
        [.kwarg "y" "2", .kwarg "x" "3"] := .kwargs _
    have hswap : ParameterStep.Regrouped [.arg "b", .kwarg "x" "1"] [.kwarg "x" "1", .arg "b"] :=
      .swap rfl rfl
    have hsplit : ParameterStep.Regrouped steps
        [.arg "a", .arg "b", .kwarg "x" "1", .kwarg "y" "2", .kwarg "x" "3"] :=
      hargs.append ((ParameterStep.Regrouped.refl [.kwarg "x" "1"]).append hkwargs)
    exact hsplit.trans ((ParameterStep.Regrouped.refl [.arg "a"]).append (hswap.append (.refl _)))
  obtain ⟨_, -, -, -, -, -, -, hsame⟩ := text_ofSteps steps .plain
  exact ⟨hregrouped, by decide +kernel, hsame others hregrouped⟩

end Parameters

end Stencil
