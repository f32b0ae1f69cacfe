import Stencil.Manifest.Decode
import Stencil.Proofs.Places

/-! What is read from the table of a document does not depend on places either: a record is read
from a table as it is read from the same table anywhere else. -/

namespace Stencil

open Document (Value Key Entries nowhere eraseItems eraseEntries)

section Records

variable {α β ρ : Type}

/-- Whether and as what a value is read does not depend on places. -/
def PlaceFree (read : Value → Decoded α) : Prop :=
  ∀ v : Value, (read v.erase).toOption = (read v).toOption

theorem toOption_eq_cases {x y : Decoded α} (h : x.toOption = y.toOption) :
    (∃ e e', x = .error e ∧ y = .error e') ∨ ∃ a, x = .ok a ∧ y = .ok a := by
  cases x with
  | error e =>
    cases y with
    | error e' => exact .inl ⟨e, e', rfl, rfl⟩
    | ok b => cases h
  | ok a =>
    cases y with
    | error e' => cases h
    | ok b => cases h; exact .inr ⟨a, rfl, rfl⟩

theorem toOption_map {x y : Decoded α} (h : x.toOption = y.toOption) (f : α → β) :
    (x.map f).toOption = (y.map f).toOption := by
  rcases toOption_eq_cases h with ⟨e, e', rfl, rfl⟩ | ⟨a, rfl, rfl⟩ <;> rfl

theorem placeFree_decodeString : PlaceFree decodeString := by
  intro v
  cases v <;> rfl

theorem placeFree_decodeBool : PlaceFree decodeBool := by
  intro v
  cases v <;> rfl

theorem placeFree_decodeOptional : PlaceFree decodeOptional :=
  fun v => toOption_map (placeFree_decodeString v) some

theorem toOption_decodeItems {read other : Value → Decoded α}
    (h : ∀ v, (other v.erase).toOption = (read v).toOption) (items : List Value) :
    (decodeItems other (eraseItems items)).toOption = (decodeItems read items).toOption := by
  induction items with
  | nil => rfl
  | cons v vs ih =>
    simp only [eraseItems, decodeItems]
    rcases toOption_eq_cases (h v) with ⟨e, e', h₁, h₂⟩ | ⟨a, h₁, h₂⟩
    · rw [h₁, h₂]; rfl
    · rw [h₁, h₂]
      rcases toOption_eq_cases ih with ⟨e, e', h₁, h₂⟩ | ⟨as, h₁, h₂⟩
      · simp only [h₁, h₂]; rfl
      · simp only [h₁, h₂]

theorem placeFree_decodeList {read : Value → Decoded α} (h : PlaceFree read) :
    PlaceFree (decodeList read) := by
  intro v
  cases v with
  | array span fromHeaders items => exact toOption_decodeItems h items
  | _ => rfl

theorem placeFree_decodeEnding : PlaceFree decodeEnding := by
  intro v
  cases v with
  | string span s =>
    simp only [Value.erase, decodeEnding]
    cases LineEnding.ofName? s <;> rfl
  | table span origin entries =>
    rcases entries with _ | ⟨⟨key, v⟩, _ | ⟨entry, entries⟩⟩
    · rfl
    · simp only [Value.erase, eraseEntries, decodeEnding]
      have hname : key.erase.name = key.name := rfl
      rw [hname]
      cases LineEnding.ofName? key.name with
      | none => rfl
      | some ending =>
        cases v with
        | array s fromHeaders items => cases items <;> rfl
        | table s origin inner => cases inner <;> rfl
        | _ => rfl
    · rfl
  | _ => rfl

/-- The same for a field, which may also name the place of an error. -/
def Field.PlaceFree (f : Field ρ) : Prop :=
  ∀ (p q : Span) (v : Value) (r : ρ), (f.set p v.erase r).toOption = (f.set q v r).toOption

theorem Field.placeFree_of {name : String} {read : Value → Decoded α} (h : Stencil.PlaceFree read)
    (store : α → ρ → ρ) : (Field.of name read store).PlaceFree :=
  fun _ _ v r => toOption_map (h v) (store · r)

theorem Field.PlaceFree.must {f : Field ρ} (h : f.PlaceFree) : f.must.PlaceFree :=
  h

theorem Field.PlaceFree.may {f : Field ρ} (h : f.PlaceFree) : f.may.PlaceFree :=
  h

def Record.PlaceFree (record : Record ρ) : Prop :=
  ∀ f ∈ record.fields, f.PlaceFree

namespace Record

variable {record : Record ρ} (h : record.PlaceFree)

include h

theorem toOption_readEntries (entries : Entries) (r : ρ) :
    (record.readEntries (eraseEntries entries) r).toOption =
      (record.readEntries entries r).toOption := by
  induction entries generalizing r with
  | nil => rfl
  | cons entry entries ih =>
    obtain ⟨key, v⟩ := entry
    simp only [eraseEntries, readEntries]
    have hname : key.erase.name = key.name := rfl
    rw [hname]
    cases hf : record.field? key.name with
    | none => rfl
    | some f =>
      simp only
      rcases toOption_eq_cases (h f (List.mem_of_find?_eq_some hf) v.erase.span v.span v r) with
        ⟨e, e', h₁, h₂⟩ | ⟨r, h₁, h₂⟩
      · rw [h₁, h₂]; rfl
      · rw [h₁, h₂]; exact ih r

theorem toOption_readTable (p q : Span) (entries : Entries) (start : ρ) :
    (record.readTable p (eraseEntries entries) start).toOption =
      (record.readTable q entries start).toOption := by
  unfold readTable
  rcases toOption_eq_cases (toOption_readEntries h entries start) with
    ⟨e, e', h₁, h₂⟩ | ⟨r, h₁, h₂⟩
  · rw [h₁, h₂]; rfl
  · rw [h₁, h₂]
    simp only [Document.get?_erase, Option.isNone_map]
    generalize record.fields.find? _ = missing
    cases missing <;> rfl

omit h in
theorem toOption_readItems (p q : Span) (index : Nat) (fields : List (Field ρ))
    (hfields : ∀ f ∈ fields, f.PlaceFree) (items : List Value) (r : ρ) :
    (record.readItems p index fields (eraseItems items) r).toOption =
      (record.readItems q index fields items r).toOption := by
  induction fields generalizing index items r with
  | nil => cases items <;> rfl
  | cons f fields ih =>
    have ih := ih (index + 1) fun g hg => hfields g (List.mem_cons_of_mem f hg)
    cases items with
    | nil =>
      simp only [eraseItems, readItems]
      split
      · exact ih [] r
      · rfl
    | cons v vs =>
      simp only [eraseItems, readItems]
      rcases toOption_eq_cases (hfields f List.mem_cons_self p q v r) with
        ⟨e, e', h₁, h₂⟩ | ⟨r, h₁, h₂⟩
      · rw [h₁, h₂]; rfl
      · rw [h₁, h₂]; exact ih vs r

theorem placeFree_read (start : ρ) : Stencil.PlaceFree (record.read start) := by
  intro v
  cases v with
  | table span origin entries => exact toOption_readTable h nowhere span entries start
  | array span fromHeaders items =>
    exact toOption_readItems nowhere span 0 record.fields h items start
  | _ => rfl

end Record

end Records

theorem placeFree_styleRecord : styleRecord.PlaceFree := by
  simp only [Record.PlaceFree, styleRecord, List.forall_mem_cons, List.not_mem_nil]
  refine ⟨fun p q v r => ?_, (Field.placeFree_of placeFree_decodeEnding _).may, by simp⟩
  simp only [setIndent]
  rcases toOption_eq_cases (placeFree_decodeString v) with ⟨e, e', h₁, h₂⟩ | ⟨s, h₁, h₂⟩
  · rw [h₁, h₂]; rfl
  · rw [h₁, h₂]
    simp only
    cases Indent.parse s <;> rfl

theorem placeFree_infoRecord : infoRecord.PlaceFree := by
  simp only [Record.PlaceFree, infoRecord, List.forall_mem_cons]
  exact ⟨(Field.placeFree_of placeFree_decodeString _).must,
    Field.placeFree_of placeFree_decodeOptional _,
    Field.placeFree_of placeFree_decodeOptional _, by simp⟩

theorem placeFree_importRecord : importRecord.PlaceFree := by
  simp only [Record.PlaceFree, importRecord, List.forall_mem_cons]
  exact ⟨(Field.placeFree_of placeFree_decodeString _).must,
    Field.placeFree_of placeFree_decodeOptional _,
    (Field.placeFree_of (placeFree_decodeList placeFree_decodeString) _).may, by simp⟩

theorem placeFree_bindingRecord : bindingRecord.PlaceFree := by
  simp only [Record.PlaceFree, bindingRecord, List.forall_mem_cons]
  exact ⟨(Field.placeFree_of placeFree_decodeString _).must,
    (Field.placeFree_of placeFree_decodeString _).must, by simp⟩

theorem placeFree_decodeBinding : PlaceFree decodeBinding :=
  Record.placeFree_read placeFree_bindingRecord {}

theorem Document.length_eraseItems (items : List Value) :
    (eraseItems items).length = items.length := by
  induction items with
  | nil => rfl
  | cons v vs ih => simp [eraseItems, ih]

theorem placeFree_exactBinding : PlaceFree exactBinding := by
  intro v
  cases v with
  | array span fromHeaders items =>
    simp only [Value.erase, exactBinding, Document.length_eraseItems]
    split
    · exact placeFree_decodeBinding (.array span fromHeaders items)
    · rfl
  | table span origin entries => exact placeFree_decodeBinding (.table span origin entries)
  | _ => rfl

theorem entryOr_erase {α : Type} {read : Value → Decoded α} (h : PlaceFree read)
    (entries : Entries) (name : String) (default : Option α) :
    entryOr (eraseEntries entries) name read default = entryOr entries name read default := by
  unfold entryOr
  rw [Document.get?_erase]
  cases Entries.get? name entries with
  | none => rfl
  | some v => exact h v

theorem decoration?_erase (v : Value) : decoration? v.erase = decoration? v := by
  cases v with
  | table span origin entries =>
    simp only [Value.erase, decoration?]
    rw [entryOr_erase placeFree_decodeString,
      entryOr_erase (placeFree_decodeList placeFree_decodeString),
      entryOr_erase (placeFree_decodeList placeFree_exactBinding)]
  | _ => rfl

theorem placeFree_decodeDecorations : PlaceFree decodeDecorations := by
  intro v
  cases v with
  | array span fromHeaders items =>
    refine toOption_decodeItems (fun v => ?_) items
    rw [decoration?_erase]
    cases decoration? v <;> rfl
  | _ => rfl

theorem placeFree_functionRecord : functionRecord.PlaceFree := by
  simp only [Record.PlaceFree, functionRecord, List.forall_mem_cons]
  exact ⟨(Field.placeFree_of placeFree_decodeString _).must,
    (Field.placeFree_of (placeFree_decodeList placeFree_decodeString) _).may,
    (Field.placeFree_of (placeFree_decodeList placeFree_decodeBinding) _).may,
    Field.placeFree_of placeFree_decodeOptional _,
    (Field.placeFree_of placeFree_decodeBool _).may,
    (Field.placeFree_of placeFree_decodeDecorations _).may,
    Field.placeFree_of placeFree_decodeOptional _,
    Field.placeFree_of placeFree_decodeOptional _, by simp⟩

theorem placeFree_classRecord : classRecord.PlaceFree := by
  simp only [Record.PlaceFree, classRecord, List.forall_mem_cons]
  exact ⟨(Field.placeFree_of placeFree_decodeString _).must,
    (Field.placeFree_of (placeFree_decodeList placeFree_decodeString) _).may,
    (Field.placeFree_of placeFree_decodeDecorations _).may,
    Field.placeFree_of placeFree_decodeOptional _,
    (Field.placeFree_of (placeFree_decodeList placeFree_decodeBinding) _).may,
    (Field.placeFree_of
      (placeFree_decodeList (Record.placeFree_read placeFree_functionRecord {})) _).may, by simp⟩

theorem placeFree_manifestRecord : manifestRecord.PlaceFree := by
  simp only [Record.PlaceFree, manifestRecord, List.forall_mem_cons]
  exact ⟨(Field.placeFree_of (Record.placeFree_read placeFree_infoRecord {}) _).must,
    (Field.placeFree_of (Record.placeFree_read placeFree_styleRecord {}) _).may,
    (Field.placeFree_of
      (placeFree_decodeList (Record.placeFree_read placeFree_importRecord {})) _).may,
    (Field.placeFree_of
      (placeFree_decodeList (Record.placeFree_read placeFree_classRecord {})) _).may,
    (Field.placeFree_of
      (placeFree_decodeList (Record.placeFree_read placeFree_functionRecord {})) _).may, by simp⟩

end Stencil
