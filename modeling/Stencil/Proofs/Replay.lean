import Stencil.Code.Imports

/-! Merging imports is taking the steps again that built them. An update of the merged catalog
can be carried over to the merged value, because keys keep their places once they are present
and a sorted insertion does not depend on the order of insertions. -/

namespace Stencil

section Entries

variable {β : Type} {key : String} {f : Option β → β}

theorem updateEntry_updateEntry (key : String) (f g : Option β → β)
    (entries : List (String × β)) :
    updateEntry key g (updateEntry key f entries) =
      updateEntry key (fun old => g (some (f old))) entries := by
  induction entries with
  | nil => simp [updateEntry]
  | cons entry rest ih =>
    obtain ⟨k, b⟩ := entry
    by_cases hk : k = key
    · simp [updateEntry, hk]
    · simp [updateEntry, hk, ih]

theorem updateEntry_comm {other : String} {g : Option β → β} {entries : List (String × β)}
    (hne : key ≠ other) (hmem : key ∈ entries.map Prod.fst) :
    updateEntry key g (updateEntry other f entries) =
      updateEntry other f (updateEntry key g entries) := by
  induction entries with
  | nil => cases hmem
  | cons entry rest ih =>
    obtain ⟨k, b⟩ := entry
    by_cases hk : k = key
    · subst hk
      simp [updateEntry, hne]
    · have hrest : key ∈ rest.map Prod.fst := by
        rcases List.mem_cons.mp hmem with he | hm
        · exact absurd he.symm hk
        · exact hm
      by_cases ho : k = other
      · simp [updateEntry, ho, Ne.symm hne]
      · simp [updateEntry, hk, ho, ih hrest]

theorem updateEntry_eq_self {entries : List (String × β)} {b : β} (hb : (key, b) ∈ entries)
    (hnd : (entries.map Prod.fst).Nodup) (hf : f (some b) = b) :
    updateEntry key f entries = entries := by
  induction entries with
  | nil => cases hb
  | cons entry rest ih =>
    obtain ⟨k, c⟩ := entry
    rw [List.map_cons, List.nodup_cons] at hnd
    rcases List.mem_cons.mp hb with he | hm
    · cases he
      simp [updateEntry, hf]
    · have hk : k ≠ key := by
        rintro rfl
        exact hnd.1 (List.mem_map.mpr ⟨(k, b), hm, rfl⟩)
      simp [updateEntry, hk, ih hm hnd.2]

theorem forall_mem_updateEntry {P : β → Prop} {entries : List (String × β)}
    (h : ∀ entry ∈ entries, P entry.2) (hnew : P (f none)) (hold : ∀ b, P b → P (f (some b))) :
    ∀ entry ∈ updateEntry key f entries, P entry.2 := by
  induction entries with
  | nil => simpa [updateEntry] using hnew
  | cons entry rest ih =>
    obtain ⟨k, b⟩ := entry
    rw [List.forall_mem_cons] at h
    by_cases hk : k = key
    · simpa [updateEntry, hk] using ⟨hold b h.1, fun a b hm => h.2 (a, b) hm⟩
    · simp only [updateEntry, hk, if_false, List.forall_mem_cons]
      exact ⟨h.1, ih h.2⟩

/-- Takes over the given entries one after the other. -/
def mergeEntries (combine : β → Option β → β) (entries given : List (String × β)) :
    List (String × β) :=
  given.foldl (fun known entry => updateEntry entry.1 (combine entry.2) known) entries

variable {combine : β → Option β → β}

theorem updateEntry_mergeEntries {entries given : List (String × β)}
    (hnot : key ∉ given.map Prod.fst) (hmem : key ∈ entries.map Prod.fst) :
    updateEntry key f (mergeEntries combine entries given) =
      mergeEntries combine (updateEntry key f entries) given := by
  induction given generalizing entries with
  | nil => rfl
  | cons entry given ih =>
    simp only [List.map_cons, List.mem_cons, not_or] at hnot
    have hkeep : key ∈ (updateEntry entry.1 (combine entry.2) entries).map Prod.fst := by
      rw [keys_updateEntry]
      split
      · exact hmem
      · exact List.mem_append_left _ hmem
    have hrest := ih hnot.2 hkeep
    rw [updateEntry_comm hnot.1 hmem] at hrest
    exact hrest

/-- A change of a value that may be made before or after the value is taken over. -/
structure Portable (combine : β → Option β → β) (f : Option β → β) : Prop where
  new : ∀ old, combine (f none) old = f old
  known : ∀ b old, combine (f (some b)) old = f (some (combine b old))

theorem mergeEntries_updateEntry (hf : Portable combine f) {entries given : List (String × β)}
    (hnd : (given.map Prod.fst).Nodup) :
    mergeEntries combine entries (updateEntry key f given) =
      updateEntry key f (mergeEntries combine entries given) := by
  induction given generalizing entries with
  | nil =>
    have hnew : combine (f none) = f := funext hf.new
    simp [updateEntry, mergeEntries, hnew]
  | cons entry given ih =>
    obtain ⟨k, b⟩ := entry
    rw [List.map_cons, List.nodup_cons] at hnd
    by_cases hk : k = key
    · subst hk
      have hmem : k ∈ (updateEntry k (combine b) entries).map Prod.fst := by
        rw [keys_updateEntry]
        split
        · assumption
        · simp
      have hknown : combine (f (some b)) = fun old => f (some (combine b old)) :=
        funext (hf.known b)
      have hcarry : updateEntry k f
            (mergeEntries combine (updateEntry k (combine b) entries) given) =
          mergeEntries combine (updateEntry k f (updateEntry k (combine b) entries)) given :=
        updateEntry_mergeEntries hnd.1 hmem
      rw [updateEntry_updateEntry, ← hknown] at hcarry
      simpa [updateEntry, mergeEntries] using hcarry.symm
    · have hrest : mergeEntries combine (updateEntry k (combine b) entries)
            (updateEntry key f given) =
          updateEntry key f (mergeEntries combine (updateEntry k (combine b) entries) given) :=
        ih hnd.2
      simpa [updateEntry, hk, mergeEntries] using hrest

theorem mergeEntries_eq_self {entries given : List (String × β)}
    (hnd : (entries.map Prod.fst).Nodup) (hsub : ∀ entry ∈ given, entry ∈ entries)
    (hsame : ∀ entry ∈ given, combine entry.2 (some entry.2) = entry.2) :
    mergeEntries combine entries given = entries := by
  induction given with
  | nil => rfl
  | cons entry given ih =>
    have hfirst : updateEntry entry.1 (combine entry.2) entries = entries :=
      updateEntry_eq_self (hsub entry (by simp)) hnd (hsame entry (by simp))
    have hrest := ih (fun a ha => hsub a (by simp [ha])) (fun a ha => hsame a (by simp [ha]))
    unfold mergeEntries at hrest ⊢
    rw [List.foldl_cons, hfirst, hrest]

end Entries

theorem Catalog.eq_of_entries_eq {β : Type} {c d : Catalog β} (h : c.entries = d.entries) :
    c = d := by
  cases c
  cases d
  simpa using h

theorem Catalog.entries_foldl_update {β : Type} (combine : β → Option β → β) (c : Catalog β)
    (given : List (String × β)) :
    (given.foldl (fun known entry => known.update entry.1 (combine entry.2)) c).entries =
      mergeEntries combine c.entries given := by
  induction given generalizing c with
  | nil => rfl
  | cons entry given ih => exact ih (c.update entry.1 (combine entry.2))

section Insertion

theorem insertSorted_insertSorted_self (s : String) (l : List String) :
    insertSorted s (insertSorted s l) = insertSorted s l := by
  induction l with
  | nil => simp [insertSorted]
  | cons t l ih =>
    by_cases he : s = t
    · simp [insertSorted, he]
    · by_cases hl : s < t
      · simp [insertSorted, he, hl]
      · simp [insertSorted, he, hl, ih]

theorem insertSorted_comm (s t : String) (l : List String) :
    insertSorted s (insertSorted t l) = insertSorted t (insertSorted s l) := by
  induction l with
  | nil => grind [insertSorted]
  | cons u l ih => grind [insertSorted]

def insertAll (given l : List String) : List String :=
  given.foldl (fun set s => insertSorted s set) l

theorem insertSorted_insertAll (s : String) (given l : List String) :
    insertSorted s (insertAll given l) = insertAll given (insertSorted s l) := by
  induction given generalizing l with
  | nil => rfl
  | cons t given ih =>
    have hrest := ih (insertSorted t l)
    rw [insertSorted_comm] at hrest
    exact hrest

theorem insertAll_insertSorted (s : String) (given l : List String) :
    insertAll (insertSorted s given) l = insertSorted s (insertAll given l) := by
  induction given generalizing l with
  | nil => rfl
  | cons t given ih =>
    rw [insertSorted_insertAll]
    by_cases he : s = t
    · subst he
      have hself := insertSorted_insertSorted_self s l
      simp [insertSorted, insertAll, hself]
    · by_cases hl : s < t
      · simp [insertSorted, he, hl, insertAll]
      · have hrest := ih (insertSorted t l)
        rw [insertSorted_insertAll, insertSorted_comm] at hrest
        simpa [insertSorted, he, hl, insertAll] using hrest

theorem mem_insertSorted {s t : String} {l : List String} :
    t ∈ insertSorted s l ↔ t = s ∨ t ∈ l := by
  induction l with
  | nil => simp [insertSorted]
  | cons u l ih => grind [insertSorted]

theorem pairwise_insertSorted {s : String} {l : List String} (h : l.Pairwise (· < ·)) :
    (insertSorted s l).Pairwise (· < ·) := by
  induction l with
  | nil => simp [insertSorted]
  | cons t l ih =>
    rw [List.pairwise_cons] at h
    have hrest := ih h.2
    by_cases he : s = t
    · simpa [insertSorted, he] using h
    · by_cases hl : s < t
      · simp only [insertSorted, he, hl, if_true, if_false, List.pairwise_cons]
        refine ⟨?_, h⟩
        intro u hu
        rcases List.mem_cons.mp hu with rfl | hu
        · exact hl
        · exact String.lt_trans hl (h.1 u hu)
      · simp only [insertSorted, he, hl, if_false, List.pairwise_cons]
        refine ⟨?_, hrest⟩
        intro u hu
        rcases mem_insertSorted.mp hu with rfl | hu
        · grind
        · exact h.1 u hu

theorem insertSorted_of_mem {s : String} {l : List String} (h : l.Pairwise (· < ·))
    (hs : s ∈ l) : insertSorted s l = l := by
  induction l with
  | nil => cases hs
  | cons t l ih =>
    rw [List.pairwise_cons] at h
    rcases List.mem_cons.mp hs with rfl | hs
    · simp [insertSorted]
    · have hlt := h.1 s hs
      have hrest := ih h.2 hs
      have he : s ≠ t := by grind
      have hl : ¬ s < t := by grind
      simp [insertSorted, he, hl, hrest]

theorem insertAll_eq_self {given l : List String} (h : l.Pairwise (· < ·))
    (hsub : ∀ s ∈ given, s ∈ l) : insertAll given l = l := by
  induction given with
  | nil => rfl
  | cons s given ih =>
    have hrest := ih fun t ht => hsub t (by simp [ht])
    unfold insertAll at hrest ⊢
    rw [List.foldl_cons, insertSorted_of_mem h (hsub s (by simp)), hrest]

end Insertion

theorem Catalog.distinct_nil (β : Type) : (([] : List (String × β)).map Prod.fst).Nodup :=
  List.nodup_nil

def Catalog.blank (β : Type) : Catalog β :=
  ⟨[], Catalog.distinct_nil β⟩

/-- Imports of nothing. -/
def Imports.blank : Imports :=
  ⟨.blank _, .blank _⟩

/-- A step in the building of imports. -/
inductive ImportStep where
  | module (name : String)
  | renamed (name localName : String)
  | symbol (name s : String)
  | merge (steps : List ImportStep)

mutual

def ImportStep.apply : ImportStep → Imports → Imports
  | .module name, i => i.addModule name
  | .renamed name localName, i => i.addAlias name localName
  | .symbol name s, i => i.addSymbol name s
  | .merge steps, i => i.merge (ImportStep.applyAll steps .blank)

def ImportStep.applyAll : List ImportStep → Imports → Imports
  | [], i => i
  | step :: steps, i => ImportStep.applyAll steps (step.apply i)

end

namespace Imports

def built (steps : List ImportStep) : Imports :=
  ImportStep.applyAll steps .blank

def combineAlias (given : Option String) (old : Option (Option String)) : Option String :=
  given <|> old.getD none

def combineSymbols (given : List String) (old : Option (List String)) : List String :=
  insertAll given (old.getD [])

theorem entries_modules_merge (i j : Imports) :
    (i.merge j).modules.entries =
      mergeEntries combineAlias i.modules.entries j.modules.entries :=
  i.modules.entries_foldl_update combineAlias j.modules.entries

theorem entries_symbols_merge (i j : Imports) :
    (i.merge j).symbols.entries =
      mergeEntries combineSymbols i.symbols.entries j.symbols.entries :=
  i.symbols.entries_foldl_update combineSymbols j.symbols.entries

theorem eq_of_entries_eq {i j : Imports} (hm : i.modules.entries = j.modules.entries)
    (hs : i.symbols.entries = j.symbols.entries) : i = j := by
  cases i
  cases j
  simp only [mk.injEq]
  exact ⟨Catalog.eq_of_entries_eq hm, Catalog.eq_of_entries_eq hs⟩

theorem merge_updateModules (i j : Imports) (name : String)
    {f : Option (Option String) → Option String} (hf : Portable combineAlias f) :
    i.merge { j with modules := j.modules.update name f } =
      { i.merge j with modules := (i.merge j).modules.update name f } := by
  have hcarry : mergeEntries combineAlias i.modules.entries
        (updateEntry name f j.modules.entries) =
      updateEntry name f (mergeEntries combineAlias i.modules.entries j.modules.entries) :=
    mergeEntries_updateEntry hf j.modules.distinct
  rw [← entries_modules_merge] at hcarry
  exact eq_of_entries_eq ((entries_modules_merge i _).trans hcarry) rfl

theorem merge_updateSymbols (i j : Imports) (name : String)
    {f : Option (List String) → List String} (hf : Portable combineSymbols f) :
    i.merge { j with symbols := j.symbols.update name f } =
      { i.merge j with symbols := (i.merge j).symbols.update name f } := by
  have hcarry : mergeEntries combineSymbols i.symbols.entries
        (updateEntry name f j.symbols.entries) =
      updateEntry name f (mergeEntries combineSymbols i.symbols.entries j.symbols.entries) :=
    mergeEntries_updateEntry hf j.symbols.distinct
  rw [← entries_symbols_merge] at hcarry
  exact eq_of_entries_eq rfl ((entries_symbols_merge i _).trans hcarry)

/-- An import without an alias keeps the one that is known. -/
theorem portable_keep : Portable combineAlias (·.getD none) :=
  ⟨fun _ => rfl, fun _ _ => rfl⟩

theorem portable_rename (localName : String) : Portable combineAlias fun _ => some localName :=
  ⟨fun _ => rfl, fun _ _ => rfl⟩

theorem portable_insert (s : String) :
    Portable combineSymbols fun known => insertSorted s (known.getD []) :=
  ⟨fun _ => rfl, fun given old => insertAll_insertSorted s given (old.getD [])⟩

theorem merge_blank (i : Imports) : i.merge .blank = i :=
  eq_of_entries_eq rfl rfl

end Imports

namespace ImportStep

mutual

theorem merge_apply : (step : ImportStep) → (i j : Imports) →
    i.merge (step.apply j) = step.apply (i.merge j)
  | .module name, i, j => i.merge_updateModules j name Imports.portable_keep
  | .renamed name localName, i, j =>
    i.merge_updateModules j name (Imports.portable_rename localName)
  | .symbol name s, i, j => i.merge_updateSymbols j name (Imports.portable_insert s)
  | .merge steps, i, j => by
    -- both sides are the inner steps taken on the merged imports
    have hreplay : ∀ k : Imports, k.merge (applyAll steps .blank) = applyAll steps k := by
      intro k
      rw [merge_applyAll steps k .blank, k.merge_blank]
    have hinner := merge_applyAll steps i j
    simp only [apply, hreplay, hinner]

theorem merge_applyAll : (steps : List ImportStep) → (i j : Imports) →
    i.merge (applyAll steps j) = applyAll steps (i.merge j)
  | [], _, _ => rfl
  | step :: steps, i, j => by
    have hrest := merge_applyAll steps i (step.apply j)
    rw [merge_apply step i j] at hrest
    exact hrest

end

theorem merge_built (steps : List ImportStep) (i : Imports) :
    i.merge (Imports.built steps) = applyAll steps i := by
  unfold Imports.built
  rw [merge_applyAll, i.merge_blank]

theorem applyAll_append (s t : List ImportStep) (i : Imports) :
    applyAll (s ++ t) i = applyAll t (applyAll s i) := by
  induction s generalizing i with
  | nil => rfl
  | cons step s ih => exact ih (step.apply i)

end ImportStep

/-- No module is named without a symbol of it, and the symbols of each are increasing. -/
def Imports.Listed (i : Imports) : Prop :=
  ∀ entry ∈ i.symbols.entries, entry.2 ≠ [] ∧ entry.2.Pairwise (· < ·)

theorem Imports.Listed.addSymbol {i : Imports} (h : i.Listed) (name s : String) :
    (i.addSymbol name s).Listed := by
  have hne : ∀ l, insertSorted s l ≠ [] := fun l =>
    List.ne_nil_of_mem (mem_insertSorted.mpr (.inl rfl))
  exact forall_mem_updateEntry (P := fun l => l ≠ [] ∧ l.Pairwise (· < ·)) h
    ⟨hne _, pairwise_insertSorted .nil⟩ fun l hl => ⟨hne l, pairwise_insertSorted hl.2⟩

namespace ImportStep

mutual

theorem listed_apply : (step : ImportStep) → {i : Imports} → i.Listed → (step.apply i).Listed
  | .module _, _, h => h
  | .renamed _ _, _, h => h
  | .symbol name s, _, h => h.addSymbol name s
  | .merge steps, i, h => by
    have hreplay : i.merge (applyAll steps .blank) = applyAll steps i := merge_built steps i
    simp only [apply, hreplay]
    exact listed_applyAll steps h

theorem listed_applyAll : (steps : List ImportStep) → {i : Imports} → i.Listed →
    (applyAll steps i).Listed
  | [], _, h => h
  | step :: steps, _, h => listed_applyAll steps (listed_apply step h)

end

end ImportStep

namespace Imports

theorem listed_built (steps : List ImportStep) : (built steps).Listed :=
  ImportStep.listed_applyAll steps (by simp [Listed, blank, Catalog.blank])

theorem Listed.merge_self {i : Imports} (h : i.Listed) : i.merge i = i := by
  apply eq_of_entries_eq
  · rw [entries_modules_merge]
    apply mergeEntries_eq_self i.modules.distinct (fun _ he => he)
    rintro ⟨name, given⟩ -
    cases given <;> rfl
  · rw [entries_symbols_merge]
    apply mergeEntries_eq_self i.symbols.distinct (fun _ he => he)
    intro entry he
    exact insertAll_eq_self (h entry he).2 fun _ hs => hs

/-- Merging built imports is taking their steps, module by module and symbol by symbol in the
same order. So merging is associative, nothing is gained or lost by merging with no imports,
and imports merged into themselves stay as they are. -/
theorem merge_built_eq_built_append (s t : List ImportStep) :
    (built s).merge (built t) = built (s ++ t) ∧
      (∀ r, ((built r).merge (built s)).merge (built t) =
        (built r).merge ((built s).merge (built t))) ∧
      (built s).merge {} = built s ∧ ({} : Imports).merge (built s) = built s ∧
      (built s).merge (built s) = built s := by
  have happend : ∀ s t, (built s).merge (built t) = built (s ++ t) := by
    intro s t
    rw [ImportStep.merge_built, built, built, ImportStep.applyAll_append]
  refine ⟨happend s t, fun r => ?_, merge_blank _, ImportStep.merge_built s {},
    (listed_built s).merge_self⟩
  rw [happend, happend, happend, happend, List.append_assoc]

end Imports

end Stencil
