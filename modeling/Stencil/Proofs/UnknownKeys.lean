import Stencil.Manifest.Diagnostic

/-! Keys that are no fields. A manifest is a tree of records, and each of its tables is read as
one of them. A key that is no field makes the reading fail, wherever the table stands, unless it
is the table of a decorator: there it makes no difference at all. -/

namespace Stencil

open Document (Value Key Entries)

/-- What a value is read as. A record that is not exact passes over keys that are not among its
names. -/
inductive Shape where
  | plain
  | list (item : Shape)
  | record (exact : Bool) (names : List String) (part : String → Shape)

/-- Changes the items that stand for the names. -/
def mapItems (f : String → Value → Value) : List String → List Value → List Value
  | name :: names, v :: vs => f name v :: mapItems f names vs
  | _, vs => vs

theorem length_mapItems (f : String → Value → Value) (names : List String) (vs : List Value) :
    (mapItems f names vs).length = vs.length := by
  induction names generalizing vs with
  | nil => cases vs <;> rfl
  | cons name names ih =>
    cases vs with
    | nil => rfl
    | cons v vs => simp [mapItems, ih]

def mapEntries (f : String → Value → Value) (entries : Entries) : Entries :=
  entries.map fun entry => (entry.1, f entry.1.name entry.2)

theorem mapEntries_cons (f : String → Value → Value) (key : Key) (v : Value) (entries : Entries) :
    mapEntries f ((key, v) :: entries) = (key, f key.name v) :: mapEntries f entries :=
  rfl

theorem get?_mapEntries (f : String → Value → Value) (name : String) (entries : Entries) :
    (mapEntries f entries).get? name = (entries.get? name).map (f name) := by
  unfold Entries.get? mapEntries
  induction entries with
  | nil => rfl
  | cons entry entries ih =>
    by_cases hname : entry.1.name = name
    · simp [hname]
    · simpa [hname] using ih

theorem get?_filter {keep : Key × Value → Bool} {name : String}
    (hkeep : ∀ entry : Key × Value, entry.1.name = name → keep entry = true) (entries : Entries) :
    Entries.get? name (entries.filter keep) = entries.get? name := by
  unfold Entries.get?
  induction entries with
  | nil => rfl
  | cons entry entries ih =>
    by_cases hname : entry.1.name = name
    · simp [hname, hkeep entry hname]
    · by_cases hk : keep entry = true
      · simpa [hname, hk] using ih
      · simpa [hname, hk] using ih

namespace Shape

/-- Whether some table, at any depth, has a key that is no name of its record. Only tables of
records that are as exact as asked for are looked at. -/
def unknownKey (exact : Bool) : Shape → Value → Bool
  | .list item, .array _ _ items => items.any fun v => item.unknownKey exact v
  | .record e names part, .table _ _ entries =>
    (e == exact && entries.any fun entry => !names.contains entry.1.name)
      || names.any fun name =>
        (Entries.get? name entries).any fun v => (part name).unknownKey exact v
  | .record _ names part, .array _ _ items =>
    (names.zip items).any fun p => (part p.1).unknownKey exact p.2
  | _, _ => false

/-- Takes the unknown keys out of the tables of records that are not exact. -/
def prune : Shape → Value → Value
  | .list item, .array span fromHeaders items =>
    .array span fromHeaders (items.map fun v => item.prune v)
  | .record exact names part, .table span origin entries =>
    .table span origin (mapEntries (fun name v => (part name).prune v)
      (entries.filter fun entry => exact || names.contains entry.1.name))
  | .record _ names part, .array span fromHeaders items =>
    .array span fromHeaders (mapItems (fun name v => (part name).prune v) names items)
  | _, v => v

theorem span_prune (s : Shape) (v : Value) : (s.prune v).span = v.span := by
  cases s <;> cases v <;> rfl

theorem unknownKey_mapItems {exact : Bool} {part : String → Shape} {f : String → Value → Value}
    (h : ∀ name v, (part name).unknownKey exact (f name v) = false) (names : List String)
    (vs : List Value) :
    ((names.zip (mapItems f names vs)).any fun p => (part p.1).unknownKey exact p.2) = false := by
  induction names generalizing vs with
  | nil => simp
  | cons name names ih =>
    cases vs with
    | nil => simp [mapItems]
    | cons v vs =>
      have hrest := ih vs
      simp only [mapItems, List.zip_cons_cons, List.any_cons, h, hrest, Bool.or_self]

theorem unknownKey_prune (s : Shape) (v : Value) : s.unknownKey false (s.prune v) = false := by
  induction s generalizing v with
  | plain => cases v <;> rfl
  | list item ih =>
    cases v with
    | array span fromHeaders items => simp [prune, unknownKey, ih]
    | _ => rfl
  | record exact names part ih =>
    cases v with
    | table span origin entries =>
      rw [prune, unknownKey, Bool.or_eq_false_iff, List.any_eq_false]
      refine ⟨?_, fun name hname => ?_⟩
      · cases exact with
        | true => rfl
        | false => simp [mapEntries]
      · -- a name of the record is never taken out, so it is found as before
        have hkeep : ∀ entry : Key × Value, entry.1.name = name →
            (exact || names.contains entry.1.name) = true := by
          intro entry he
          simp [he, hname]
        rw [get?_mapEntries, get?_filter hkeep]
        cases Entries.get? name entries with
        | none => simp
        | some v => simp [ih name v]
    | array span fromHeaders items =>
      exact unknownKey_mapItems (fun name v => ih name v) names items
    | _ => rfl

end Shape

/-- A value that is read has no unknown key in a table that must be exact, and unknown keys
elsewhere make no difference. -/
structure Conforms {α : Type} (s : Shape) (read : Value → Decoded α) : Prop where
  known : ∀ {v : Value} {a : α}, read v = .ok a → s.unknownKey true v = false
  pruned : ∀ v : Value, read (s.prune v) = read v

section Readers

variable {α β : Type}

theorem conforms_plain (read : Value → Decoded α) : Conforms .plain read where
  known {v _} _ := by cases v <;> rfl
  pruned v := by cases v <;> rfl

theorem Conforms.map {s : Shape} {read : Value → Decoded α} (h : Conforms s read) (f : α → β) :
    Conforms s fun v => (read v).map f where
  known {v b} hb := by
    cases hr : read v with
    | error e => simp [hr, Except.map] at hb
    | ok a => exact h.known hr
  pruned v := by rw [h.pruned]

theorem decodeItems_ok {item : Value → Decoded α} {vs : List Value} {as : List α}
    (h : decodeItems item vs = .ok as) {v : Value} (hv : v ∈ vs) : ∃ a, item v = .ok a := by
  induction vs generalizing as with
  | nil => simp at hv
  | cons w vs ih =>
    cases hw : item w with
    | error e => simp [decodeItems, hw] at h
    | ok a =>
      cases hvs : decodeItems item vs with
      | error e => simp [decodeItems, hw, hvs] at h
      | ok rest =>
        rcases List.mem_cons.mp hv with rfl | hv
        · exact ⟨a, hw⟩
        · exact ih hvs hv

theorem decodeItems_map {item : Value → Decoded α} {f : Value → Value}
    (h : ∀ v, item (f v) = item v) (vs : List Value) :
    decodeItems item (vs.map f) = decodeItems item vs := by
  induction vs with
  | nil => rfl
  | cons v vs ih => simp only [List.map_cons, decodeItems, h, ih]

/-- A list whose items are read by a rule that may depend on the place of the list. -/
theorem conforms_list {s : Shape} {item : Span → Value → Decoded α}
    (h : ∀ span, Conforms s (item span)) {read : Value → Decoded (List α)}
    (harray : ∀ span fromHeaders items,
      read (.array span fromHeaders items) = decodeItems (item span) items) :
    Conforms (.list s) read where
  known {v as} hv := by
    cases v with
    | array span fromHeaders items =>
      rw [harray] at hv
      rw [Shape.unknownKey, List.any_eq_false]
      intro v hmem
      obtain ⟨a, ha⟩ := decodeItems_ok hv hmem
      simp [(h span).known ha]
    | _ => rfl
  pruned v := by
    cases v with
    | array span fromHeaders items =>
      rw [Shape.prune, harray, harray]
      exact decodeItems_map (fun v => (h span).pruned v) items
    | _ => rfl

theorem Conforms.list {s : Shape} {item : Value → Decoded α} (h : Conforms s item) :
    Conforms (.list s) (decodeList item) :=
  conforms_list (fun _ => h) fun _ _ _ => rfl

end Readers

section Records

variable {ρ α : Type}

def Field.Conforms (s : Shape) (f : Field ρ) : Prop :=
  ∀ place r, Stencil.Conforms s fun v => f.set place v r

theorem Field.conforms_of {s : Shape} {read : Value → Decoded α} (h : Stencil.Conforms s read)
    (name : String) (store : α → ρ → ρ) : (Field.of name read store).Conforms s :=
  fun _ r => h.map (store · r)

theorem Field.Conforms.must {s : Shape} {f : Field ρ} (h : f.Conforms s) : f.must.Conforms s :=
  h

theorem Field.Conforms.may {s : Shape} {f : Field ρ} (h : f.Conforms s) : f.may.Conforms s :=
  h

theorem Field.conforms_plain (f : Field ρ) : f.Conforms .plain :=
  fun place r => Stencil.conforms_plain fun v => f.set place v r

namespace Record

variable {record : Record ρ} {part : String → Shape}

theorem mem_of_field? {name : String} {f : Field ρ} (h : record.field? name = some f) :
    f ∈ record.fields ∧ f.name = name :=
  ⟨List.mem_of_find?_eq_some h, by simpa using List.find?_some h⟩

theorem readEntries_ok (hparts : ∀ f ∈ record.fields, f.Conforms (part f.name))
    {entries : Entries} {start r : ρ} (h : record.readEntries entries start = .ok r)
    {entry : Key × Value} (hentry : entry ∈ entries) :
    entry.1.name ∈ record.fieldNames ∧ (part entry.1.name).unknownKey true entry.2 = false := by
  induction entries generalizing start with
  | nil => simp at hentry
  | cons first entries ih =>
    obtain ⟨key, v⟩ := first
    cases hf : record.field? key.name with
    | none => simp [readEntries, hf, misfit] at h
    | some f =>
      cases hs : f.set v.span v start with
      | error e => simp [readEntries, hf, hs] at h
      | ok next =>
        simp only [readEntries, hf, hs] at h
        rcases List.mem_cons.mp hentry with rfl | hentry
        · obtain ⟨hmem, hname⟩ := mem_of_field? hf
          have hknown := (hparts f hmem v.span start).known hs
          rw [hname] at hknown
          exact ⟨List.mem_map.mpr ⟨f, hmem, hname⟩, hknown⟩
        · exact ih h hentry

theorem readEntries_prune (hparts : ∀ f ∈ record.fields, f.Conforms (part f.name))
    (entries : Entries) (start : ρ) :
    record.readEntries (mapEntries (fun name v => (part name).prune v) entries) start =
      record.readEntries entries start := by
  induction entries generalizing start with
  | nil => rfl
  | cons entry entries ih =>
    obtain ⟨key, v⟩ := entry
    rw [mapEntries_cons, readEntries, readEntries]
    cases hf : record.field? key.name with
    | none => rfl
    | some f =>
      obtain ⟨hmem, hname⟩ := mem_of_field? hf
      have hset : f.set ((part key.name).prune v).span ((part key.name).prune v) start =
          f.set v.span v start := by
        rw [Shape.span_prune, ← hname]
        exact (hparts f hmem v.span start).pruned v
      simp only [hset, ih]

theorem readItems_ok {fields : List (Field ρ)} (hparts : ∀ f ∈ fields, f.Conforms (part f.name))
    {span : Span} {index : Nat} {vs : List Value} {start r : ρ}
    (h : record.readItems span index fields vs start = .ok r) :
    (((fields.map Field.name).zip vs).any fun p => (part p.1).unknownKey true p.2) = false := by
  induction fields generalizing index vs start with
  | nil => simp
  | cons f fields ih =>
    cases vs with
    | nil => simp
    | cons v vs =>
      cases hs : f.set span v start with
      | error e => simp [readItems, hs] at h
      | ok next =>
        simp only [readItems, hs] at h
        have hfirst := (hparts f (by simp) span start).known hs
        have hrest := ih (fun f hf => hparts f (by simp [hf])) h
        simp [hfirst] at hrest ⊢
        exact hrest

theorem readItems_prune {fields : List (Field ρ)}
    (hparts : ∀ f ∈ fields, f.Conforms (part f.name)) (span : Span) (index : Nat)
    (vs : List Value) (start : ρ) :
    record.readItems span index fields
      (mapItems (fun name v => (part name).prune v) (fields.map Field.name) vs) start =
      record.readItems span index fields vs start := by
  induction fields generalizing index vs start with
  | nil => rfl
  | cons f fields ih =>
    have hrest := ih fun f hf => hparts f (by simp [hf])
    cases vs with
    | nil => rfl
    | cons v vs =>
      have hset : f.set span ((part f.name).prune v) start = f.set span v start :=
        (hparts f (by simp) span start).pruned v
      simp only [List.map_cons, mapItems, readItems, hset, hrest]

/-- A record conforms if its fields do, each to the part of its name. -/
theorem conforms (record : Record ρ) (part : String → Shape)
    (hparts : ∀ f ∈ record.fields, f.Conforms (part f.name)) (start : ρ) :
    Stencil.Conforms (.record true record.fieldNames part) (record.read start) where
  known {v r} h := by
    cases v with
    | table span origin entries =>
      cases he : record.readEntries entries start with
      | error e => simp [Record.read, readTable, he] at h
      | ok r' =>
        rw [Shape.unknownKey, Bool.or_eq_false_iff, List.any_eq_false]
        refine ⟨?_, fun name hname => ?_⟩
        · simp only [beq_self_eq_true, Bool.true_and, List.any_eq_false]
          intro entry hentry
          simp [(readEntries_ok hparts he hentry).1]
        · cases hg : Entries.get? name entries with
          | none => simp
          | some v =>
            obtain ⟨entry, hentry, rfl⟩ := Option.map_eq_some_iff.mp hg
            have hkey : entry.1.name = name := by simpa using List.find?_some hentry
            have hknown := (readEntries_ok hparts he (List.mem_of_find?_eq_some hentry)).2
            rw [hkey] at hknown
            simp [hknown]
    | array span fromHeaders items => exact readItems_ok hparts h
    | _ => rfl
  pruned v := by
    cases v with
    | table span origin entries =>
      have hkeep : (entries.filter fun entry =>
          true || record.fieldNames.contains entry.1.name) = entries := by simp
      have hget : ∀ name, (Entries.get? name
          (mapEntries (fun name v => (part name).prune v) entries)).isNone =
            (Entries.get? name entries).isNone := by
        intro name
        simp [get?_mapEntries]
      rw [Shape.prune, hkeep]
      simp only [Record.read, readTable, readEntries_prune hparts, hget]
    | array span fromHeaders items =>
      exact readItems_prune hparts span 0 items start
    | _ => rfl

end Record

end Records

section Manifests

def infoShape : Shape :=
  .record true ["name", "header", "doc"] fun _ => .plain

def styleShape : Shape :=
  .record true ["indent", "line_ending"] fun _ => .plain

def importShape : Shape :=
  .record true ["module", "alias", "symbols"] fun _ => .plain

/-- An attribute of a class, or a keyword with its value. -/
def bindingShape : Shape :=
  .record true ["name", "value"] fun _ => .plain

def decorationPart : String → Shape
  | "kwargs" => .list bindingShape
  | _ => .plain

def decorationShape : Shape :=
  .record false ["name", "args", "kwargs"] decorationPart

/-- A function, or a method of a class. -/
def functionShape : Shape :=
  .record true ["name", "args", "kwargs", "returns", "async", "decorators", "doc", "body"] fun
    | "kwargs" => .list bindingShape
    | "decorators" => .list decorationShape
    | _ => .plain

def classShape : Shape :=
  .record true ["name", "parents", "decorators", "doc", "attributes", "methods"] fun
    | "decorators" => .list decorationShape
    | "attributes" => .list bindingShape
    | "methods" => .list functionShape
    | _ => .plain

def manifestShape : Shape :=
  .record true ["module", "style", "imports", "classes", "functions"] fun
    | "module" => infoShape
    | "style" => styleShape
    | "imports" => .list importShape
    | "classes" => .list classShape
    | "functions" => .list functionShape
    | _ => .plain

theorem conforms_info : Conforms infoShape (infoRecord.read {}) :=
  infoRecord.conforms (fun _ => .plain) (fun f _ => f.conforms_plain) {}

theorem conforms_style : Conforms styleShape (styleRecord.read {}) :=
  styleRecord.conforms (fun _ => .plain) (fun f _ => f.conforms_plain) {}

theorem conforms_import : Conforms importShape (importRecord.read {}) :=
  importRecord.conforms (fun _ => .plain) (fun f _ => f.conforms_plain) {}

theorem conforms_binding : Conforms bindingShape decodeBinding :=
  bindingRecord.conforms (fun _ => .plain) (fun f _ => f.conforms_plain) {}

theorem conforms_exactBinding : Conforms bindingShape exactBinding where
  known {v b} h := by
    cases v with
    | array span fromHeaders items =>
      by_cases hlength : items.length ≤ bindingRecord.fields.length
      · rw [exactBinding, if_pos hlength] at h
        exact conforms_binding.known h
      · rw [exactBinding, if_neg hlength] at h
        simp [misfit] at h
    | _ => exact conforms_binding.known h
  pruned v := by
    cases v with
    | array span fromHeaders items =>
      have hpruned := conforms_binding.pruned (.array span fromHeaders items)
      simp only [bindingShape, Shape.prune] at hpruned ⊢
      simp only [exactBinding, length_mapItems, hpruned]
    | _ => exact conforms_binding.pruned _

theorem entryOr_congr {α : Type} {entries others : Entries} {name : String}
    {read : Value → Decoded α} {f : Value → Value}
    (hget : Entries.get? name others = (Entries.get? name entries).map f)
    (hread : ∀ v, read (f v) = read v) (default : Option α) :
    entryOr others name read default = entryOr entries name read default := by
  unfold entryOr
  rw [hget]
  cases Entries.get? name entries with
  | none => rfl
  | some v => simp only [Option.map_some, hread]

theorem decoration?_prune (v : Value) : decoration? (decorationShape.prune v) = decoration? v := by
  cases v with
  | table span origin entries =>
    have hget : ∀ name ∈ ["name", "args", "kwargs"], Entries.get? name
        (mapEntries (fun name v => (decorationPart name).prune v) (entries.filter fun entry =>
          false || ["name", "args", "kwargs"].contains entry.1.name)) =
          (Entries.get? name entries).map (decorationPart name).prune := by
      intro name hname
      rw [get?_mapEntries, get?_filter]
      intro entry he
      simpa [he] using hname
    have hname := entryOr_congr (hget "name" (by simp)) (conforms_plain decodeString).pruned none
    have hargs := entryOr_congr (hget "args" (by simp))
      (conforms_plain (decodeList decodeString)).pruned (some [])
    have hkwargs := entryOr_congr (hget "kwargs" (by simp)) conforms_exactBinding.list.pruned
      (some [])
    rw [decorationShape, Shape.prune, decoration?, decoration?, hname, hargs, hkwargs]
  | _ => rfl

theorem unknownKey_of_decoration? {v : Value} {d : Decoration} (h : decoration? v = some d) :
    decorationShape.unknownKey true v = false := by
  cases v with
  | table span origin entries =>
    have hkwargs : ∃ kwargs, entryOr entries "kwargs" (decodeList exactBinding) (some []) =
        some kwargs := by
      simp only [decoration?] at h
      split at h
      · exact ⟨_, by assumption⟩
      · simp at h
    obtain ⟨kwargs, hkwargs⟩ := hkwargs
    have hpart : ∀ v, Entries.get? "kwargs" entries = some v →
        (Shape.list bindingShape).unknownKey true v = false := by
      intro v hv
      simp only [entryOr, hv] at hkwargs
      cases hd : decodeList exactBinding v with
      | error e => simp [hd, Except.toOption] at hkwargs
      | ok as => exact conforms_exactBinding.list.known hd
    rw [decorationShape, Shape.unknownKey]
    cases hv : Entries.get? "kwargs" entries with
    | none => simp [hv, decorationPart, Shape.unknownKey]
    | some v => simp [hv, decorationPart, Shape.unknownKey, hpart v hv]
  | array span fromHeaders items => simp [decoration?] at h
  | _ => rfl

theorem conforms_decorations : Conforms (.list decorationShape) decodeDecorations := by
  refine conforms_list (fun span => ?_) fun span _ items => rfl
  refine ⟨fun {v d} h => ?_, fun v => ?_⟩
  · cases hd : decoration? v with
    | none => simp [hd, misfit] at h
    | some d => exact unknownKey_of_decoration? hd
  · rw [decoration?_prune]

theorem conforms_function : Conforms functionShape (functionRecord.read {}) := by
  refine functionRecord.conforms _ (fun f hf => ?_) {}
  simp only [functionRecord, List.mem_cons, List.not_mem_nil, or_false] at hf
  rcases hf with rfl | rfl | rfl | rfl | rfl | rfl | rfl | rfl
  · exact Field.conforms_plain _
  · exact Field.conforms_plain _
  · exact (Field.conforms_of conforms_binding.list _ _).may
  · exact Field.conforms_plain _
  · exact Field.conforms_plain _
  · exact (Field.conforms_of conforms_decorations _ _).may
  · exact Field.conforms_plain _
  · exact Field.conforms_plain _

theorem conforms_class : Conforms classShape (classRecord.read {}) := by
  refine classRecord.conforms _ (fun f hf => ?_) {}
  simp only [classRecord, List.mem_cons, List.not_mem_nil, or_false] at hf
  rcases hf with rfl | rfl | rfl | rfl | rfl | rfl
  · exact Field.conforms_plain _
  · exact Field.conforms_plain _
  · exact (Field.conforms_of conforms_decorations _ _).may
  · exact Field.conforms_plain _
  · exact (Field.conforms_of conforms_binding.list _ _).may
  · exact (Field.conforms_of conforms_function.list _ _).may

theorem conforms_manifest : Conforms manifestShape (manifestRecord.read {}) := by
  refine manifestRecord.conforms _ (fun f hf => ?_) {}
  simp only [manifestRecord, List.mem_cons, List.not_mem_nil, or_false] at hf
  rcases hf with rfl | rfl | rfl | rfl | rfl
  · exact (Field.conforms_of conforms_info _ _).must
  · exact (Field.conforms_of conforms_style _ _).may
  · exact (Field.conforms_of conforms_import.list _ _).may
  · exact (Field.conforms_of conforms_class.list _ _).may
  · exact (Field.conforms_of conforms_function.list _ _).may

def wholeTable (entries : Entries) : Value :=
  .table ⟨0, 0⟩ .header entries

/-- The document is TOML, but not read as a manifest. -/
def Manifest.Refused (document : String) : Prop :=
  ∃ e, Manifest.parse document = .error (.unparsed (.misfit e))

theorem Manifest.refused_iff {document : String} {entries : Entries}
    (h : Document.parse? document = some entries) :
    Manifest.Refused document ↔ ∃ e, manifestRecord.read {} (wholeTable entries) = .error e := by
  have hwhole : manifestRecord.read {} (wholeTable entries) =
      manifestRecord.readTable ⟨0, 0⟩ entries {} := rfl
  rw [hwhole, Refused, Manifest.parse, Manifest.read, Record.readDocument, h]
  dsimp only
  cases manifestRecord.readTable ⟨0, 0⟩ entries {} with
  | error e => simp
  | ok m =>
    dsimp only
    cases m.check document <;> simp

/-- A document with unknown keys is refused, unless all of them are in tables of decorators and
it is read well without them. Unknown keys anywhere else are enough to refuse it, and those of
decorators change nothing in what is read. -/
theorem Manifest.refused_of_unknown_key_iff {document : String} {entries : Entries}
    (h : Document.parse? document = some entries) :
    ((∀ exact, manifestShape.unknownKey exact (wholeTable entries) → Manifest.Refused document) ↔
        manifestShape.unknownKey true (wholeTable entries) ∨
        manifestShape.unknownKey false (wholeTable entries) = false ∨
        ∃ e, manifestRecord.read {} (manifestShape.prune (wholeTable entries)) = .error e) ∧
      (manifestShape.unknownKey true (wholeTable entries) → Manifest.Refused document) ∧
      manifestShape.unknownKey false (manifestShape.prune (wholeTable entries)) = false ∧
      manifestRecord.read {} (manifestShape.prune (wholeTable entries)) =
        manifestRecord.read {} (wholeTable entries) := by
  have hrefused := Manifest.refused_iff h
  have hpruned := conforms_manifest.pruned (wholeTable entries)
  have hexact : manifestShape.unknownKey true (wholeTable entries) → Manifest.Refused document := by
    intro hkey
    rw [hrefused]
    cases hr : manifestRecord.read {} (wholeTable entries) with
    | error e => exact ⟨e, rfl⟩
    | ok m =>
      rw [conforms_manifest.known hr] at hkey
      exact absurd hkey (by decide)
  refine ⟨?_, hexact, manifestShape.unknownKey_prune _, hpruned⟩
  rw [hpruned, ← hrefused]
  constructor
  · intro hall
    cases hkey : manifestShape.unknownKey false (wholeTable entries) with
    | false => exact .inr (.inl rfl)
    | true => exact .inr (.inr (hall false hkey))
  · rintro (hkey | hkey | hr) exact hany
    · exact hexact hkey
    · cases exact with
      | true => exact hexact hany
      | false =>
        rw [hkey] at hany
        exact absurd hany (by decide)
    · exact hr

/-- A third key in a keyword of a method. -/
def misspeltKeyword : String :=
  "module.name='m'\n[[classes]]\nname='C'\n[[classes.methods]]\nname='f'\n"
    ++ "kwargs=[\x7bname='a',value='1',typ='int'\x7d]"

theorem refused_misspeltKeyword :
    (∃ entries, Document.parse? misspeltKeyword = some entries ∧
        manifestShape.unknownKey true (wholeTable entries)) ∧
      Manifest.Refused misspeltKeyword := by
  have hkey : (Document.parse? misspeltKeyword).any (fun entries =>
      manifestShape.unknownKey true (wholeTable entries)) = true := by decide +kernel
  obtain ⟨entries, h, hkey⟩ := (Option.any_eq_true _ _).mp hkey
  exact ⟨⟨entries, h, hkey⟩, (Manifest.refused_of_unknown_key_iff h).2.1 hkey⟩

/-- A decorator with its arguments under the wrong key. -/
def misspeltArguments : String :=
  "[module]\nname = \"m\"\n\n[[functions]]\nname = \"f\"\n"
    ++ "decorators = [\x7b name = \"d\", argz = [\"a\"] \x7d]\n"

theorem not_refused_misspeltArguments :
    (∃ entries, Document.parse? misspeltArguments = some entries ∧
        manifestShape.unknownKey false (wholeTable entries)) ∧
      Manifest.parse misspeltArguments = .ok
        { info := { name := "m" }
          functions := [{ name := "f", decorators := [.call "d" [] []] }] } := by
  have hkey : (Document.parse? misspeltArguments).any (fun entries =>
      manifestShape.unknownKey false (wholeTable entries)) = true := by decide +kernel
  exact ⟨(Option.any_eq_true _ _).mp hkey, by decide +kernel⟩

end Manifests

end Stencil
