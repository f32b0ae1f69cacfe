import Stencil.Text.Blank

/-! Trimming cuts a text into white space, a middle part that neither begins nor ends with
white space, and white space again. The middle part is determined by this. -/

namespace Stencil

/-- Neither the first nor the last character is white space. -/
def Tight (cs : List Char) : Prop :=
  (∀ c ∈ cs.head?, isBlank c = false) ∧ (∀ c ∈ cs.getLast?, isBlank c = false)

theorem trimLeft_eq_self {cs : List Char} (h : ∀ c ∈ cs.head?, isBlank c = false) :
    trimLeft cs = cs := by
  cases cs with
  | nil => rfl
  | cons c cs => simp [trimLeft, h c rfl]

theorem trimRight_eq_self {cs : List Char} (h : ∀ c ∈ cs.getLast?, isBlank c = false) :
    trimRight cs = cs := by
  have hr : trimLeft cs.reverse = cs.reverse := by
    apply trimLeft_eq_self
    rwa [List.head?_reverse]
  rw [trimRight, show cs.reverse.dropWhile isBlank = cs.reverse from hr, List.reverse_reverse]

theorem trimLeft_blanks_append {blanks : List Char} (h : ∀ c ∈ blanks, isBlank c = true)
    (cs : List Char) : trimLeft (blanks ++ cs) = trimLeft cs :=
  List.dropWhile_append_of_pos h

theorem trimRight_append_blanks {blanks : List Char} (h : ∀ c ∈ blanks, isBlank c = true)
    (cs : List Char) : trimRight (cs ++ blanks) = trimRight cs := by
  have hr : ∀ c ∈ blanks.reverse, isBlank c = true := fun c hc => h c (List.mem_reverse.mp hc)
  rw [trimRight, trimRight, List.reverse_append, List.dropWhile_append_of_pos hr]

theorem trimLeft_blanks {blanks : List Char} (h : ∀ c ∈ blanks, isBlank c = true) :
    trimLeft blanks = [] := by
  have hh := trimLeft_blanks_append h []
  rwa [List.append_nil] at hh

theorem trimBoth_eq_of_tight {before cs after : List Char} (hb : ∀ c ∈ before, isBlank c = true)
    (hcs : Tight cs) (ha : ∀ c ∈ after, isBlank c = true) :
    trimBoth (before ++ cs ++ after) = cs := by
  rw [trimBoth, List.append_assoc, trimLeft_blanks_append hb]
  cases cs with
  | nil => rw [List.nil_append, trimLeft_blanks ha]; rfl
  | cons c cs =>
    rw [trimLeft_eq_self (by simpa using hcs.1), trimRight_append_blanks ha,
      trimRight_eq_self hcs.2]

theorem exists_append_trimRight (cs : List Char) :
    ∃ after, (∀ c ∈ after, isBlank c = true) ∧ cs = trimRight cs ++ after := by
  refine ⟨(cs.reverse.takeWhile isBlank).reverse, ?_, ?_⟩
  · intro c hc
    exact List.all_eq_true.mp List.all_takeWhile c (List.mem_reverse.mp hc)
  · rw [trimRight, ← List.reverse_append, List.takeWhile_append_dropWhile, List.reverse_reverse]

theorem head?_trimLeft (cs : List Char) : ∀ c ∈ (trimLeft cs).head?, isBlank c = false := by
  intro c hc
  have h := List.head?_dropWhile_not isBlank cs
  rw [show (cs.dropWhile isBlank).head? = some c from hc] at h
  simpa using h

theorem getLast?_trimRight (cs : List Char) : ∀ c ∈ (trimRight cs).getLast?, isBlank c = false := by
  intro c hc
  rw [trimRight, List.getLast?_reverse] at hc
  exact head?_trimLeft cs.reverse c hc

theorem tight_trimBoth (cs : List Char) : Tight (trimBoth cs) := by
  refine ⟨?_, getLast?_trimRight _⟩
  intro c hc
  obtain ⟨after, _, he⟩ := exists_append_trimRight (trimLeft cs)
  apply head?_trimLeft cs
  rw [he]
  rw [trimBoth] at hc
  cases ht : trimRight (trimLeft cs) with
  | nil => simp [ht] at hc
  | cons d ds =>
    rw [ht] at hc
    exact hc

/-- A text is its trimmed part between white space. -/
theorem exists_append_trimBoth (cs : List Char) :
    ∃ before after, (∀ c ∈ before, isBlank c = true) ∧ (∀ c ∈ after, isBlank c = true) ∧
      cs = before ++ trimBoth cs ++ after := by
  obtain ⟨after, ha, he⟩ := exists_append_trimRight (trimLeft cs)
  refine ⟨cs.takeWhile isBlank, after, List.all_eq_true.mp List.all_takeWhile, ha, ?_⟩
  rw [List.append_assoc, trimBoth, ← he, trimLeft, List.takeWhile_append_dropWhile]

theorem trimBoth_eq_self {cs : List Char} (h : Tight cs) : trimBoth cs = cs := by
  rw [trimBoth, trimLeft_eq_self h.1, trimRight_eq_self h.2]

theorem trimBoth_trimBoth (cs : List Char) : trimBoth (trimBoth cs) = trimBoth cs :=
  trimBoth_eq_self (tight_trimBoth cs)

@[simp] theorem toList_trim (s : String) : (trim s).toList = trimBoth s.toList := by
  simp [trim]

end Stencil
