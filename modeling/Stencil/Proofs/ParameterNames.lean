import Mathlib.Data.List.TakeWhile
import Stencil.Proofs.Acceptance

/-! The names of parameters. The check trims an entry before it looks for the name in it, and the
list of names does not; still both find the same name in every text, so all names that are checked
are compared with each other. The check lets any number of stars stand before a name, where the
grammar has two at most. -/

namespace Stencil

theorem trimBoth_blanks_append {blanks : List Char} (h : ∀ c ∈ blanks, isBlank c = true)
    (cs : List Char) : trimBoth (blanks ++ cs) = trimBoth cs := by
  rw [trimBoth, trimLeft_blanks_append h, trimBoth]

/-- White space around a parameter is neither before nor after its name. -/
theorem trimBoth_takeWhile_trimBoth (cs : List Char) :
    trimBoth ((trimBoth cs).takeWhile (· != ':')) = trimBoth (cs.takeWhile (· != ':')) := by
  obtain ⟨before, after, hbefore, hafter, hcs⟩ := exists_append_trimBoth cs
  have htight := tight_trimBoth cs
  generalize trimBoth cs = core at hcs htight
  have hcolon : ∀ c ∈ before, (c != ':') = true := fun c hc => bne_colon_of_isBlank (hbefore c hc)
  rw [hcs, List.append_assoc, List.takeWhile_append_of_pos hcolon, trimBoth_blanks_append hbefore,
    List.takeWhile_append]
  split
  · next hall =>
    -- without a colon the white space behind is taken too, and goes with the trimming
    have hcore : core.takeWhile (· != ':') = core := (List.takeWhile_prefix _).eq_of_length hall
    have hblank : after.takeWhile (· != ':') = after :=
      List.takeWhile_eq_self_iff.mpr fun c hc => bne_colon_of_isBlank (hafter c hc)
    have hbare : trimBoth ([] ++ core ++ []) = core :=
      trimBoth_eq_of_tight (by simp) htight (by simp)
    have hwhole : trimBoth ([] ++ core ++ after) = core :=
      trimBoth_eq_of_tight (by simp) htight hafter
    rw [List.nil_append, List.append_nil] at hbare
    rw [List.nil_append] at hwhole
    rw [hcore, hblank, hbare, hwhole]
  · rfl

theorem parameterName_trim (arg : String) : parameterName (trim arg) = parameterName arg := by
  rw [parameterName, parameterName, toList_trim, trimBoth_takeWhile_trimBoth]

section Names

/-- The name that the check of a parameter looks at. It passes over markers. -/
def examined? (arg : String) : Option String :=
  if trim arg = "/" ∨ trim arg = "*" then none else some (parameterName (trim arg))

theorem Scope.checkParameter_eq (s : Scope) (arg : String) :
    s.checkParameter arg = (examined? arg).elim (.ok ()) (s.checkName "parameter") := by
  unfold checkParameter examined?
  by_cases h : trim arg = "/" ∨ trim arg = "*" <;> simp [h]

theorem examined?_eq_none_iff (arg : String) : examined? arg = none ↔ IsMarker arg := by
  unfold examined? IsMarker
  by_cases h : trim arg = "/" ∨ trim arg = "*" <;> simp [h]

theorem examined?_of_not_isMarker {arg : String} (h : ¬ IsMarker arg) :
    examined? arg = some (parameterName arg) := by
  rw [← parameterName_trim]
  exact if_neg h

theorem IsName.ne_slash {name : String} (h : IsName name) : name ≠ "/" := by
  rintro rfl
  exact h.not_mem (c := '/') (by decide +kernel) (by decide)

theorem Introduces.not_isMarker {arg name : String} (h : Introduces arg name) : ¬ IsMarker arg := by
  intro hm
  rcases hm.parameterName_eq with he | he <;> rw [h.parameterName_eq] at he
  · exact h.1.ne_empty he
  · exact h.1.ne_slash he

/-- A name in the sense of the grammar is the one that is looked at. -/
theorem IsParameter.examined?_eq_some_iff {arg : String} (h : IsParameter arg) (name : String) :
    examined? arg = some name ↔ Introduces arg name := by
  constructor
  · intro he
    have hm : ¬ IsMarker arg := by
      rw [← examined?_eq_none_iff, he]
      exact Option.some_ne_none name
    obtain ⟨other, ho⟩ := h.resolve_left hm
    have hsame : other = name := by
      rw [examined?_of_not_isMarker hm, ho.parameterName_eq] at he
      exact Option.some.inj he
    rwa [← hsame]
  · intro hn
    rw [examined?_of_not_isMarker hn.not_isMarker, hn.parameterName_eq]

/-- What is left of the names once those of markers are dropped are the names that are looked at. -/
theorem filter_parameterName_eq {args : List String} (h : ∀ arg ∈ args, IsParameter arg) :
    (args.map parameterName).filter (fun name => !name.isEmpty && name != "/") =
      args.filterMap examined? := by
  induction args with
  | nil => rfl
  | cons arg args ih =>
    rw [List.forall_mem_cons] at h
    have hrest := ih h.2
    rcases h.1 with hm | ⟨name, hn⟩
    · rw [List.filterMap_cons_none ((examined?_eq_none_iff arg).mpr hm), ← hrest]
      rcases hm.parameterName_eq with he | he <;> simp [he]
    · rw [List.filterMap_cons_some ((h.1.examined?_eq_some_iff name).mpr hn), ← hrest]
      simp [hn.parameterName_eq, hn.1.ne_empty, hn.1.ne_slash]

/-- In a function that is accepted, the names that are compared with each other are the names that
were checked, one for each parameter that is no marker, and those of the keywords. -/
theorem Scope.parameterNames_checked {s : Scope} {f : FunctionDecl}
    (h : s.checkFunction f = .ok ()) :
    (∀ arg, (s.inside f.name).checkParameter arg =
        (examined? arg).elim (.ok ()) ((s.inside f.name).checkName "parameter")) ∧
      (∀ arg ∈ f.args, (examined? arg = none ↔ IsMarker arg) ∧
        ∀ name, examined? arg = some name ↔ Introduces arg name) ∧
      f.parameterNames = f.args.filterMap examined? ++ f.kwargs.map Binding.name ∧
      (∀ name ∈ f.parameterNames, name ≠ "" ∧ IsName name) ∧ f.parameterNames.Nodup := by
  have hvalid := (s.checkFunction_eq_ok_iff f).mp h
  have hnames : f.parameterNames = f.args.filterMap examined? ++ f.kwargs.map Binding.name := by
    rw [FunctionDecl.parameterNames, filter_parameterName_eq hvalid.args]
  refine ⟨(s.inside f.name).checkParameter_eq, ?_, hnames, ?_, ?_⟩
  · intro arg harg
    exact ⟨examined?_eq_none_iff arg, (hvalid.args arg harg).examined?_eq_some_iff⟩
  · intro name hname
    have hn : IsName name := by
      rw [hnames] at hname
      rcases List.mem_append.mp hname with hm | hm
      · obtain ⟨arg, harg, he⟩ := List.mem_filterMap.mp hm
        exact (((hvalid.args arg harg).examined?_eq_some_iff name).mp he).1
      · obtain ⟨b, hb, rfl⟩ := List.mem_map.mp hm
        exact hvalid.kwargs b hb
    exact ⟨hn.ne_empty, hn⟩
  · obtain ⟨names, hintroduced⟩ := exists_introduced hvalid.args
    rw [FunctionDecl.parameterNames, hintroduced.filter_parameterName]
    exact hvalid.distinct names hintroduced

/-- Markers and names with white space of several kinds around them, a colon in an annotation, and
stars. -/
def sampleParameters : FunctionDecl where
  name := "f"
  args := [" self", "/ ", "x : dict[str:int]", "\t* ", "**rest :"]
  kwargs := [⟨"key", "None"⟩]

theorem parameterNames_checked_sample :
    let s : Scope := { document := "" }
    s.checkFunction sampleParameters = .ok () ∧
      sampleParameters.args.filterMap examined? = ["self", "x", "rest"] ∧
      sampleParameters.parameterNames = ["self", "x", "rest"] ++ ["key"] ∧
      sampleParameters.parameterNames.Nodup := by
  intro s
  have h : s.checkFunction sampleParameters = .ok () := by decide +kernel
  have hexamined : sampleParameters.args.filterMap examined? = ["self", "x", "rest"] := by
    decide +kernel
  obtain ⟨-, -, hnames, -, hdistinct⟩ := Scope.parameterNames_checked h
  rw [hexamined] at hnames
  exact ⟨h, hexamined, hnames, hdistinct⟩

end Names

section Stars

/-- So many stars, the name, white space, and an annotation that begins with a colon. -/
def Starred (count : Nat) (arg name : String) : Prop :=
  IsName name ∧ ∃ blanks annotation,
    (trim arg).toList = List.replicate count '*' ++ name.toList ++ blanks ++ annotation ∧
    (∀ c ∈ blanks, isBlank c = true) ∧ (∀ c ∈ annotation.head?, c = ':')

/-- A marker, or a name with two stars at most before it. -/
def IsDocumented (arg : String) : Prop :=
  IsMarker arg ∨ ∃ count name, count ≤ 2 ∧ Starred count arg name

def IsOverstarred (arg : String) : Prop :=
  ∃ count name, 2 < count ∧ Starred count arg name

theorem introduces_iff_starred (arg name : String) :
    Introduces arg name ↔ ∃ count, Starred count arg name := by
  constructor
  · rintro ⟨hn, stars, blanks, annotation, he, hs, hb, ha⟩
    have hstars : stars = List.replicate stars.length '*' := List.eq_replicate_of_mem hs
    rw [hstars] at he
    exact ⟨stars.length, hn, blanks, annotation, he, hb, ha⟩
  · rintro ⟨count, hn, blanks, annotation, he, hb, ha⟩
    exact ⟨hn, _, blanks, annotation, he, fun c hc => List.eq_of_mem_replicate hc, hb, ha⟩

def leadingStars (arg : String) : Nat :=
  ((trim arg).toList.takeWhile (· == '*')).length

theorem Starred.leadingStars_eq {count : Nat} {arg name : String} (h : Starred count arg name) :
    leadingStars arg = count := by
  obtain ⟨hn, blanks, annotation, he, -, -⟩ := h
  have hstars : ∀ c ∈ List.replicate count '*', (c == '*') = true := by
    intro c hc
    rw [List.eq_of_mem_replicate hc]
    rfl
  have hname : (name.toList ++ (blanks ++ annotation)).takeWhile (· == '*') = [] := by
    have hstar : '*' ∉ name.toList := hn.not_mem (by decide +kernel)
    cases hl : name.toList with
    | nil => exact absurd (by simpa using hl) hn.ne_empty
    | cons c cs =>
      rw [hl] at hstar
      have hc : c ≠ '*' := fun hc => hstar (by simp [hc])
      simp [hc]
  rw [leadingStars, he, List.append_assoc, List.append_assoc, List.takeWhile_append_of_pos hstars,
    hname, List.append_nil, List.length_replicate]

theorem IsMarker.leadingStars_le {arg : String} (h : IsMarker arg) : leadingStars arg ≤ 1 := by
  rcases h with h | h <;> rw [leadingStars, h] <;> decide

theorem IsDocumented.leadingStars_le {arg : String} (h : IsDocumented arg) :
    leadingStars arg ≤ 2 := by
  rcases h with hm | ⟨count, name, hcount, hs⟩
  · exact Nat.le_succ_of_le hm.leadingStars_le
  · rwa [hs.leadingStars_eq]

theorem IsOverstarred.not_isDocumented {arg : String} (h : IsOverstarred arg) :
    ¬ IsDocumented arg := by
  obtain ⟨count, name, hcount, hs⟩ := h
  intro hd
  have hle := hd.leadingStars_le
  rw [hs.leadingStars_eq] at hle
  omega

/-- A parameter is accepted exactly if it follows the grammar, or if it has more than two stars
before a name and follows the grammar otherwise, which the grammar excludes. -/
theorem Scope.parameter_accepted_iff (s : Scope) (arg : String) :
    (s.checkParameter arg = .ok () ↔ IsDocumented arg ∨ IsOverstarred arg) ∧
      ¬ (IsDocumented arg ∧ IsOverstarred arg) := by
  refine ⟨?_, fun h => h.2.not_isDocumented h.1⟩
  rw [s.checkParameter_eq_ok_iff]
  constructor
  · rintro (hm | ⟨name, hn⟩)
    · exact .inl (.inl hm)
    · obtain ⟨count, hs⟩ := (introduces_iff_starred arg name).mp hn
      by_cases hcount : count ≤ 2
      · exact .inl (.inr ⟨count, name, hcount, hs⟩)
      · exact .inr ⟨count, name, by omega, hs⟩
  · rintro ((hm | ⟨count, name, -, hs⟩) | ⟨count, name, -, hs⟩)
    · exact .inl hm
    · exact .inr ⟨name, (introduces_iff_starred arg name).mpr ⟨count, hs⟩⟩
    · exact .inr ⟨name, (introduces_iff_starred arg name).mpr ⟨count, hs⟩⟩

theorem three_stars_accepted :
    let s : Scope := { document := "" }
    s.checkParameter "***x" = .ok () ∧ ¬ IsDocumented "***x" := by
  intro s
  have hx : IsName "x" := (nameFlaw?_eq_none_iff "x").mp (by decide +kernel)
  have hs : IsOverstarred "***x" :=
    ⟨3, "x", by decide, hx, [], [], by decide +kernel, by simp, by simp⟩
  exact ⟨by decide +kernel, hs.not_isDocumented⟩

end Stars

end Stencil
