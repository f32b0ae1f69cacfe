import Stencil.Code.Name
import Stencil.Manifest.Basic
import Stencil.Proofs.Trim

/-! The grammar of names, of dotted names and of positional parameters, said without the
checks, and that the checks find no flaw exactly in the texts of the grammar. -/

namespace Stencil

/-- An identifier that is no keyword. -/
def IsName (name : String) : Prop :=
  (∃ c cs, name.toList = c :: cs ∧ (isAlphabetic c = true ∨ c = '_') ∧
    ∀ d ∈ cs, isAlphabetic d = true ∨ isNumeric d = true ∨ d = '_') ∧ name ∉ keywords

/-- Names with dots between them. -/
def IsDotted (name : String) : Prop :=
  ∃ parts : List String, parts ≠ [] ∧ (∀ part ∈ parts, IsName part) ∧
    name = ".".intercalate parts

/-- A parameter that only separates others. -/
def IsMarker (arg : String) : Prop :=
  trim arg = "/" ∨ trim arg = "*"

/-- Stars, the name, white space, and an annotation that begins with a colon. -/
def Introduces (arg name : String) : Prop :=
  IsName name ∧ ∃ stars blanks annotation,
    (trim arg).toList = stars ++ name.toList ++ blanks ++ annotation ∧
    (∀ c ∈ stars, c = '*') ∧ (∀ c ∈ blanks, isBlank c = true) ∧
    (∀ c ∈ annotation.head?, c = ':')

def IsParameter (arg : String) : Prop :=
  IsMarker arg ∨ ∃ name, Introduces arg name

theorem identifierFlaw?_eq_none_iff (cs : List Char) :
    identifierFlaw? cs = none ↔ ∃ c ds, cs = c :: ds ∧ (isAlphabetic c = true ∨ c = '_') ∧
      ∀ d ∈ ds, isAlphabetic d = true ∨ isNumeric d = true ∨ d = '_' := by
  cases cs with
  | nil => simp [identifierFlaw?]
  | cons c ds =>
    have hs : startsName c = true ↔ isAlphabetic c = true ∨ c = '_' := by simp [startsName]
    have hc : ds.all continuesName = true ↔
        ∀ d ∈ ds, isAlphabetic d = true ∨ isNumeric d = true ∨ d = '_' := by
      simp [continuesName, or_assoc]
    have hnone : identifierFlaw? (c :: ds) = none ↔
        startsName c = true ∧ ds.all continuesName = true := by
      simp only [identifierFlaw?]
      cases startsName c <;> cases ds.all continuesName <;> simp
    rw [hnone, hs, hc]
    constructor
    · rintro ⟨hfirst, hrest⟩
      exact ⟨c, ds, rfl, hfirst, hrest⟩
    · rintro ⟨_, _, he, hfirst, hrest⟩
      cases he
      exact ⟨hfirst, hrest⟩

theorem nameFlaw?_eq_none_iff (name : String) : nameFlaw? name = none ↔ IsName name := by
  have hk : isKeyword name = true ↔ name ∈ keywords := by simp [isKeyword]
  unfold nameFlaw? IsName
  rw [← identifierFlaw?_eq_none_iff, ← hk]
  by_cases h : isKeyword name = true <;> simp [h]

/-- No code point is in both sets. -/
def CodePoints.disjoint (s t : CodePoints) : Bool :=
  s.ranges.all fun (low, high) => t.ranges.all fun (low', high') => high < low' || high' < low

theorem CodePoints.has_eq_false {s t : CodePoints} (h : s.disjoint t = true) {c : Char}
    (hc : s.has c = true) : t.has c = false := by
  simp only [disjoint, List.all_eq_true, Bool.or_eq_true, decide_eq_true_eq] at h
  simp only [has, List.any_eq_true, Bool.and_eq_true, decide_eq_true_eq] at hc
  obtain ⟨r, hr, hlow, hhigh⟩ := hc
  simp only [has, List.any_eq_false, Bool.and_eq_true, decide_eq_true_eq, not_and]
  intro r' hr' hlow'
  have := h r hr r' hr'
  omega

theorem continuesName_of_isBlank {c : Char} (h : isBlank c = true) : continuesName c = false := by
  have ha : isAlphabetic c = false := CodePoints.has_eq_false (by decide +kernel) h
  have hn : isNumeric c = false := CodePoints.has_eq_false (by decide +kernel) h
  have hu : c ≠ '_' := by
    rintro rfl
    exact absurd h (by decide)
  simp [continuesName, ha, hn, hu]

theorem IsName.ne_empty {name : String} (h : IsName name) : name ≠ "" := by
  obtain ⟨⟨c, cs, he, _⟩, _⟩ := h
  rintro rfl
  cases he

theorem IsName.continuesName {name : String} (h : IsName name) {c : Char}
    (hc : c ∈ name.toList) : continuesName c = true := by
  obtain ⟨⟨first, rest, he, hfirst, hrest⟩, _⟩ := h
  rw [he] at hc
  rcases List.mem_cons.mp hc with rfl | hc
  · rcases hfirst with hf | hf <;> simp [Stencil.continuesName, hf]
  · rcases hrest c hc with hd | hd | hd <;> simp [Stencil.continuesName, hd]

theorem IsName.not_mem {name : String} (h : IsName name) {c : Char}
    (hc : Stencil.continuesName c = false) : c ∉ name.toList := by
  intro hm
  rw [h.continuesName hm] at hc
  cases hc

theorem IsName.tight {name : String} (h : IsName name) : Tight name.toList := by
  have hblank : ∀ c ∈ name.toList, isBlank c = false := by
    intro c hc
    rw [← Bool.not_eq_true]
    exact fun hb => h.not_mem (continuesName_of_isBlank hb) hc
  exact ⟨fun c hc => hblank c (List.mem_of_mem_head? hc),
    fun c hc => hblank c (List.mem_of_getLast? hc)⟩

theorem splitOn_eq (separator : Char) (cs : List Char) :
    splitOn separator cs = cs.splitOn separator := by
  induction cs with
  | nil => rfl
  | cons c cs ih =>
    rw [List.splitOn_cons_eq_if_modifyHead, splitOn, ih]
    by_cases h : c = separator
    · simp [h]
    · simp only [h, if_false, beq_iff_eq]
      cases hs : cs.splitOn separator with
      | nil => exact absurd hs (List.splitOn_ne_nil separator cs)
      | cons p ps => rfl

theorem segmentsFlaw?_eq_none_iff (whole : String) (ss : List (List Char)) :
    segmentsFlaw? whole ss = none ↔ ∀ s ∈ ss, IsName (String.ofList s) := by
  induction ss with
  | nil => simp [segmentsFlaw?]
  | cons s ss ih =>
    rw [List.forall_mem_cons, ← ih, ← nameFlaw?_eq_none_iff, segmentsFlaw?]
    cases s with
    | nil => simp [nameFlaw?, identifierFlaw?, isKeyword, keywords]
    | cons c cs =>
      simp only [List.isEmpty_cons, Bool.false_eq_true, if_false]
      cases nameFlaw? (String.ofList (c :: cs)) <;> simp

/-- A text without dots is one segment, so the empty text needs no case of its own. -/
theorem dottedFlaw?_eq_none_iff_segments (name : String) :
    dottedFlaw? name = none ↔ ∀ s ∈ segments name.toList, IsName (String.ofList s) := by
  unfold dottedFlaw?
  by_cases h : name = ""
  · have hn : ¬ IsName "" := fun h => h.ne_empty rfl
    simp [h, segments, splitOn, hn]
  · have he : name.isEmpty = false := by simpa using h
    simp only [he, Bool.false_eq_true, if_false, segmentsFlaw?_eq_none_iff]

theorem isDotted_iff (name : String) :
    IsDotted name ↔ ∀ s ∈ segments name.toList, IsName (String.ofList s) := by
  rw [segments, splitOn_eq]
  constructor
  · rintro ⟨parts, hne, hparts, rfl⟩
    have hdot : ∀ l ∈ parts.map String.toList, '.' ∉ l := by
      intro l hl
      obtain ⟨part, hp, rfl⟩ := List.mem_map.mp hl
      exact (hparts part hp).not_mem (by decide +kernel)
    rw [String.toList_intercalate]
    have hs := List.splitOn_intercalate '.' hdot (by simpa using hne)
    intro s hm
    rw [show ".".toList = ['.'] from rfl, hs] at hm
    obtain ⟨part, hp, rfl⟩ := List.mem_map.mp hm
    simpa using hparts part hp
  · intro h
    refine ⟨(name.toList.splitOn '.').map String.ofList, by simp, ?_, ?_⟩
    · intro part hp
      obtain ⟨s, hs, rfl⟩ := List.mem_map.mp hp
      exact h s hs
    · apply String.toList_inj.mp
      have he : (String.toList ∘ String.ofList) = id := by
        funext cs
        simp
      rw [String.toList_intercalate, List.map_map, he, List.map_id]
      exact (List.intercalate_splitOn '.').symm

theorem dottedFlaw?_eq_none_iff (name : String) : dottedFlaw? name = none ↔ IsDotted name := by
  rw [dottedFlaw?_eq_none_iff_segments, isDotted_iff]

theorem dropWhile_stars_append {stars : List Char} {name : String} (hs : ∀ c ∈ stars, c = '*')
    (hn : IsName name) : (stars ++ name.toList).dropWhile (· == '*') = name.toList := by
  rw [List.dropWhile_append_of_pos (by simpa using hs)]
  have hstar : '*' ∉ name.toList := hn.not_mem (by decide +kernel)
  cases hl : name.toList with
  | nil => rfl
  | cons c cs =>
    rw [hl] at hstar
    have hc : c ≠ '*' := fun h => hstar (by simp [h])
    simp [hc]

theorem tight_stars_append {stars : List Char} {name : String} (hs : ∀ c ∈ stars, c = '*')
    (hn : IsName name) : Tight (stars ++ name.toList) := by
  have hstar : isBlank '*' = false := by decide
  have hne : name.toList ≠ [] := by simpa using hn.ne_empty
  refine ⟨?_, ?_⟩
  · cases stars with
    | nil => simpa using hn.tight.1
    | cons s stars => simp [hs s (by simp), hstar]
  · intro c hc
    rw [List.getLast?_append, List.getLast?_eq_some_getLast hne, Option.some_or] at hc
    exact hn.tight.2 c (by rwa [List.getLast?_eq_some_getLast hne])

theorem bne_colon_of_isBlank {c : Char} (h : isBlank c = true) : (c != ':') = true := by
  simp only [bne_iff_ne]
  rintro rfl
  exact absurd h (by decide)

/-- What stands before the annotation is the word, and white space. -/
theorem exists_takeWhile_colon {word blanks annotation after : List Char}
    (hw : ∀ c ∈ word, (c != ':') = true) (hb : ∀ c ∈ blanks, isBlank c = true)
    (hn : ∀ c ∈ annotation.head?, c = ':') (ha : ∀ c ∈ after, isBlank c = true) :
    ∃ more, (∀ c ∈ more, isBlank c = true) ∧
      (word ++ blanks ++ annotation ++ after).takeWhile (· != ':') = word ++ more := by
  have hwb : ∀ c ∈ word ++ blanks, (c != ':') = true := by
    intro c hc
    rcases List.mem_append.mp hc with hc | hc
    · exact hw c hc
    · exact bne_colon_of_isBlank (hb c hc)
  cases annotation with
  | nil =>
    have hall : (after ++ []).takeWhile (· != ':') = after ++ [] :=
      List.takeWhile_append_of_pos fun c hc => bne_colon_of_isBlank (ha c hc)
    rw [List.append_nil] at hall
    refine ⟨blanks ++ after, ?_, ?_⟩
    · intro c hc
      rcases List.mem_append.mp hc with hc | hc
      · exact hb c hc
      · exact ha c hc
    · rw [List.append_nil, List.takeWhile_append_of_pos hwb, hall, List.append_assoc]
  | cons c rest =>
    have hc : c = ':' := hn c rfl
    refine ⟨blanks, hb, ?_⟩
    rw [List.append_assoc, List.takeWhile_append_of_pos hwb, hc]
    simp

/-- The word before the annotation without its stars, whatever white space is around it. -/
theorem parameterName_eq_of_toList_trim {arg : String} {word blanks annotation : List Char}
    (he : (trim arg).toList = word ++ blanks ++ annotation) (ht : Tight word)
    (hw : ∀ c ∈ word, (c != ':') = true) (hb : ∀ c ∈ blanks, isBlank c = true)
    (hn : ∀ c ∈ annotation.head?, c = ':') :
    parameterName arg = String.ofList (word.dropWhile (· == '*')) := by
  obtain ⟨before, after, hbefore, hafter, harg⟩ := exists_append_trimBoth arg.toList
  have hword : ∀ c ∈ before ++ word, (c != ':') = true := by
    intro c hc
    rcases List.mem_append.mp hc with hc | hc
    · exact bne_colon_of_isBlank (hbefore c hc)
    · exact hw c hc
  obtain ⟨more, hmore, htake⟩ := exists_takeWhile_colon hword hb hn hafter
  have htext : arg.toList = before ++ word ++ blanks ++ annotation ++ after := by
    rw [harg, ← toList_trim, he]
    simp only [List.append_assoc]
  rw [parameterName, htext, htake, trimBoth_eq_of_tight hbefore ht hmore]

theorem Introduces.parameterName_eq {arg name : String} (h : Introduces arg name) :
    parameterName arg = name := by
  obtain ⟨hn, stars, blanks, annotation, he, hs, hb, ha⟩ := h
  have hword : ∀ c ∈ stars ++ name.toList, (c != ':') = true := by
    intro c hc
    rw [bne_iff_ne]
    rintro rfl
    rcases List.mem_append.mp hc with hc | hc
    · exact absurd (hs ':' hc) (by decide)
    · exact hn.not_mem (by decide +kernel) hc
  rw [parameterName_eq_of_toList_trim he (tight_stars_append hs hn) hword hb ha,
    dropWhile_stars_append hs hn, String.ofList_toList]

theorem Introduces.trim {arg name : String} (h : Introduces arg name) :
    Introduces (trim arg) name := by
  have ht : (Stencil.trim (Stencil.trim arg)).toList = (Stencil.trim arg).toList := by
    rw [toList_trim, toList_trim, trimBoth_trimBoth]
  unfold Introduces
  rw [ht]
  exact h

theorem parameterName_eq_of_singleton {arg : String} {c : Char} (he : (trim arg).toList = [c])
    (hb : isBlank c = false) (hc : (c != ':') = true) :
    parameterName arg = String.ofList ([c].dropWhile (· == '*')) := by
  have he' : (trim arg).toList = [c] ++ [] ++ [] := he
  have ht : Tight [c] := ⟨by simp [hb], by simp [hb]⟩
  exact parameterName_eq_of_toList_trim he' ht (by simpa using hc) (by simp) (by simp)

theorem IsMarker.parameterName_eq {arg : String} (h : IsMarker arg) :
    parameterName arg = "" ∨ parameterName arg = "/" := by
  rcases h with h | h
  · exact .inr (parameterName_eq_of_singleton (by rw [h]; rfl) (by decide) (by decide))
  · exact .inl (parameterName_eq_of_singleton (by rw [h]; rfl) (by decide) (by decide))

/-- What is left of a parameter, if it is a name, stands in it as the grammar says. -/
theorem introduces_parameterName {arg : String} (h : IsName (parameterName (trim arg))) :
    Introduces arg (parameterName (trim arg)) := by
  refine ⟨h, ?_⟩
  have htight := tight_trimBoth arg.toList
  rw [← toList_trim] at htight
  simp only [parameterName, String.toList_ofList]
  generalize (trim arg).toList = core at htight
  obtain ⟨before, blanks, hbefore, hblanks, hword⟩ :=
    exists_append_trimBoth (core.takeWhile (· != ':'))
  have hcore : core.takeWhile (· != ':') ++ core.dropWhile (· != ':') = core :=
    List.takeWhile_append_dropWhile
  -- white space in front would also be in front of the whole text, which has none
  have hnil : before = [] := by
    cases before with
    | nil => rfl
    | cons c rest =>
      have hc : core.head? = some c := by
        rw [← hcore, hword]
        rfl
      have hb := hbefore c (by simp)
      rw [htight.1 c hc] at hb
      cases hb
  refine ⟨(trimBoth (core.takeWhile (· != ':'))).takeWhile (· == '*'), blanks,
    core.dropWhile (· != ':'), ?_, ?_, hblanks, ?_⟩
  · rw [List.takeWhile_append_dropWhile]
    rw [hnil, List.nil_append] at hword
    rw [← hword, hcore]
  · intro c hc
    simpa using List.all_eq_true.mp List.all_takeWhile c hc
  · intro c hc
    have hh := List.head?_dropWhile_not (· != ':') core
    rw [show (core.dropWhile (· != ':')).head? = some c from hc] at hh
    simpa using hh

end Stencil
