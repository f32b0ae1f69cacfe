import Stencil.Document.Reading

/-! Equations of the readers of a document. A reader looks for the mark that comes first in what
is left; these equations say so in one form for all of them. From them it follows that more fuel
changes nothing that was read. -/

namespace Stencil.Document

/-- What follows a mark that comes first, and the place of the mark. -/
def afterMark? (c : Char) : List Token → Option (Span × List Token)
  | ⟨.mark d, span⟩ :: rest => if d = c then some (span, rest) else none
  | _ => none

theorem afterMark?_eq_some_iff {c : Char} {ts rest : List Token} {span : Span} :
    afterMark? c ts = some (span, rest) ↔ ts = ⟨.mark c, span⟩ :: rest := by
  rcases ts with _ | ⟨⟨lexeme, place⟩, ts⟩
  · simp [afterMark?]
  · cases lexeme with
    | mark d => by_cases h : d = c <;> simp [afterMark?, h]
    | _ => simp [afterMark?]

theorem afterMark?_mark (c : Char) (span : Span) (rest : List Token) :
    afterMark? c (⟨.mark c, span⟩ :: rest) = some (span, rest) :=
  afterMark?_eq_some_iff.mpr rfl

theorem afterMark?_eq_none {c : Char} {ts : List Token}
    (h : ∀ span rest, ts = ⟨.mark c, span⟩ :: rest → False) : afterMark? c ts = none := by
  cases hm : afterMark? c ts with
  | none => rfl
  | some p => exact (h p.1 p.2 (afterMark?_eq_some_iff.mp hm)).elim

section Equations

variable (fuel nesting : Nat) (ts : List Token)

theorem skipBlank_eq_self (h : ∀ text span rest, ts = ⟨.blank text, span⟩ :: rest → False) :
    skipBlank ts = ts := by
  rcases ts with _ | ⟨⟨lexeme, span⟩, rest⟩
  · rfl
  · cases lexeme with
    | blank text => exact (h text span rest rfl).elim
    | _ => rfl

theorem readKey_cons (t : Token) :
    readKey (t :: ts) = (simpleKey? t).bind fun key =>
      match afterMark? '.' (skipBlank ts) with
      | some (_, rest) => readKey.more key (readKey (skipBlank rest))
      | none => some ([], key, skipBlank ts) := by
  rw [readKey]
  cases simpleKey? t with
  | none => rfl
  | some key =>
    simp only [Option.bind_some]
    split
    · rfl
    · next => simp [skipBlank, afterMark?]
    · rfl
    · next => simp [skipBlank, afterMark?]
    · next rest _ hdot =>
      simp only [skipBlank]
      rw [afterMark?_eq_none hdot]
    · next hdot _ _ hblank =>
      rw [skipBlank_eq_self ts hblank, afterMark?_eq_none hdot]

theorem readItems_succ :
    readItems (fuel + 1) nesting ts =
      match afterMark? ']' ts with
      | some (span, rest) => some ([], span.stop, rest)
      | none => (readValue fuel nesting ts).bind fun (item, rest) =>
        match afterMark? ']' (skipLines rest) with
        | some (span, rest) => some ([item], span.stop, rest)
        | none => (afterMark? ',' (skipLines rest)).bind fun (_, rest) =>
          (readItems fuel nesting (skipLines rest)).map fun (items, stop, rest) =>
            (item :: items, stop, rest) := by
  cases hm : afterMark? ']' ts with
  | some p =>
    rw [afterMark?_eq_some_iff.mp hm, readItems]
    exact Nat.succ_ne_zero fuel
  | none =>
    rw [readItems]
    · cases readValue fuel nesting ts with
      | none => rfl
      | some p =>
        obtain ⟨item, rest⟩ := p
        simp only [Option.bind_some]
        split
        · simp [*, afterMark?]
        · simp [*, afterMark?]
        · next hclose hcomma =>
          rw [afterMark?_eq_none hclose, afterMark?_eq_none hcomma]
          rfl
    · intro span rest hts
      rw [afterMark?_eq_some_iff.mpr hts] at hm
      cases hm

theorem readEntries_succ (entries : Entries) :
    readEntries (fuel + 1) nesting entries ts =
      match afterMark? '\x7d' ts with
      | some (span, rest) => some (entries, span.stop, rest)
      | none => (readAssign skipLines fuel nesting ts).bind fun (path, key, value, rest) =>
        (assign? path key value entries).bind fun entries =>
          match afterMark? '\x7d' (skipLines rest) with
          | some (span, rest) => some (entries, span.stop, rest)
          | none => (afterMark? ',' (skipLines rest)).bind fun (_, rest) =>
            readEntries fuel nesting entries (skipLines rest) := by
  cases hm : afterMark? '\x7d' ts with
  | some p =>
    rw [afterMark?_eq_some_iff.mp hm, readEntries]
    exact Nat.succ_ne_zero fuel
  | none =>
    rw [readEntries]
    · cases readAssign skipLines fuel nesting ts with
      | none => rfl
      | some p =>
        obtain ⟨path, key, value, rest⟩ := p
        simp only [Option.bind_some]
        cases assign? path key value entries with
        | none => rfl
        | some entries =>
          simp only [Option.bind_some]
          split
          · simp [*, afterMark?]
          · simp [*, afterMark?]
          · next hclose hcomma =>
            rw [afterMark?_eq_none hclose, afterMark?_eq_none hcomma]
            rfl
    · intro span rest hts
      rw [afterMark?_eq_some_iff.mpr hts] at hm
      cases hm

theorem readAssign_succ (skip : List Token → List Token) :
    readAssign skip (fuel + 1) nesting ts =
      (readKey ts).bind fun (path, key, rest) =>
        (afterMark? '=' (skip rest)).bind fun (_, rest) =>
          (readValue fuel nesting (skip rest)).map fun (value, rest) =>
            (path, key, value, rest) := by
  rw [readAssign]
  cases readKey ts with
  | none => rfl
  | some p =>
    obtain ⟨path, key, rest⟩ := p
    simp only [Option.bind_some]
    split
    · simp [*, afterMark?]
    · next hno =>
      rw [afterMark?_eq_none hno]
      rfl

theorem readValue_succ (t : Token) :
    readValue (fuel + 1) nesting (t :: ts) =
      match t.lexeme with
      | .quoted _ text => some (.string t.span text, ts)
      | .bare _ => readUnquoted t.span.start (t :: ts)
      | .mark c =>
        if c = '[' && nesting != 0 then
          (readItems fuel (nesting - 1) (skipLines ts)).map fun (items, stop, rest) =>
            (.array ⟨t.span.start, stop⟩ false items, rest)
        else if c = '\x7b' && nesting != 0 then
          (readEntries fuel (nesting - 1) [] (skipLines ts)).map fun (entries, stop, rest) =>
            (.table ⟨t.span.start, stop⟩ .inline entries, rest)
        else none
      | _ => none := by
  unfold readValue
  rfl

end Equations

/-- What is read with this much fuel is read with one more, too. -/
structure Keeps (fuel : Nat) : Prop where
  value : ∀ {nesting ts r}, readValue fuel nesting ts = some r →
    readValue (fuel + 1) nesting ts = some r
  items : ∀ {nesting ts r}, readItems fuel nesting ts = some r →
    readItems (fuel + 1) nesting ts = some r
  entries : ∀ {nesting entries ts r}, readEntries fuel nesting entries ts = some r →
    readEntries (fuel + 1) nesting entries ts = some r
  assign : ∀ {skip nesting ts r}, readAssign skip fuel nesting ts = some r →
    readAssign skip (fuel + 1) nesting ts = some r

namespace Keeps

variable {fuel nesting : Nat} {ts : List Token}

theorem zero : Keeps 0 where
  value h := by rw [readValue] at h; cases h
  items h := by rw [readItems] at h; cases h
  entries h := by rw [readEntries] at h; cases h
  assign h := by rw [readAssign] at h; cases h

variable (keeps : Keeps fuel)

include keeps

theorem value_succ {r : Value × List Token} (h : readValue (fuel + 1) nesting ts = some r) :
    readValue (fuel + 2) nesting ts = some r := by
  rcases ts with _ | ⟨⟨lexeme, span⟩, ts⟩
  · rw [readValue] at h
    · cases h
    · exact Nat.succ_ne_zero fuel
  · rw [readValue_succ] at h ⊢
    cases lexeme with
    | mark c =>
      simp only at h ⊢
      split at h
      · obtain ⟨p, hp, rfl⟩ := Option.map_eq_some_iff.mp h
        simp only [*, if_true, keeps.items hp, Option.map_some]
      · split at h
        · obtain ⟨p, hp, rfl⟩ := Option.map_eq_some_iff.mp h
          simp only [*, if_true, keeps.entries hp, Option.map_some]
          rfl
        · cases h
    | _ => exact h

theorem items_succ {r : List Value × Nat × List Token}
    (h : readItems (fuel + 1) nesting ts = some r) : readItems (fuel + 2) nesting ts = some r := by
  rw [readItems_succ] at h ⊢
  cases hclose : afterMark? ']' ts with
  | some p => simpa only [hclose] using h
  | none =>
    simp only [hclose] at h ⊢
    obtain ⟨⟨item, rest⟩, hitem, h⟩ := Option.bind_eq_some_iff.mp h
    rw [keeps.value hitem, Option.bind_some]
    simp only at h ⊢
    cases hend : afterMark? ']' (skipLines rest) with
    | some q => simpa only [hend] using h
    | none =>
      simp only [hend] at h ⊢
      obtain ⟨⟨span, rest⟩, hcomma, h⟩ := Option.bind_eq_some_iff.mp h
      obtain ⟨q, hq, rfl⟩ := Option.map_eq_some_iff.mp h
      rw [hcomma, Option.bind_some]
      simp only [keeps.items hq, Option.map_some]

theorem entries_succ {entries : Entries} {r : Entries × Nat × List Token}
    (h : readEntries (fuel + 1) nesting entries ts = some r) :
    readEntries (fuel + 2) nesting entries ts = some r := by
  rw [readEntries_succ] at h ⊢
  cases hclose : afterMark? '\x7d' ts with
  | some p => simpa only [hclose] using h
  | none =>
    simp only [hclose] at h ⊢
    obtain ⟨⟨path, key, value, rest⟩, hentry, h⟩ := Option.bind_eq_some_iff.mp h
    rw [keeps.assign hentry, Option.bind_some]
    simp only at h ⊢
    obtain ⟨more, hmore, h⟩ := Option.bind_eq_some_iff.mp h
    rw [hmore, Option.bind_some]
    cases hend : afterMark? '\x7d' (skipLines rest) with
    | some q => simpa only [hend] using h
    | none =>
      simp only [hend] at h ⊢
      obtain ⟨⟨span, rest⟩, hcomma, h⟩ := Option.bind_eq_some_iff.mp h
      rw [hcomma, Option.bind_some]
      exact keeps.entries h

theorem assign_succ {skip : List Token → List Token} {r : List Key × Key × Value × List Token}
    (h : readAssign skip (fuel + 1) nesting ts = some r) :
    readAssign skip (fuel + 2) nesting ts = some r := by
  rw [readAssign_succ] at h ⊢
  obtain ⟨⟨path, key, rest⟩, hkey, h⟩ := Option.bind_eq_some_iff.mp h
  rw [hkey, Option.bind_some]
  obtain ⟨⟨span, rest⟩, hsign, h⟩ := Option.bind_eq_some_iff.mp h
  simp only at hsign h ⊢
  rw [hsign, Option.bind_some]
  obtain ⟨p, hp, rfl⟩ := Option.map_eq_some_iff.mp h
  simp only [keeps.value hp, Option.map_some]

theorem succ : Keeps (fuel + 1) where
  value := keeps.value_succ
  items := keeps.items_succ
  entries := keeps.entries_succ
  assign := keeps.assign_succ

end Keeps

theorem keeps (fuel : Nat) : Keeps fuel := by
  induction fuel with
  | zero => exact Keeps.zero
  | succ fuel ih => exact ih.succ

theorem closeHeader_eq (isArray : Bool) (start : Nat) (path : List Key) (key : Key)
    (ts : List Token) :
    closeHeader isArray start path key ts =
      (afterMark? ']' ts).bind fun (inner, rest) =>
        if isArray then
          (afterMark? ']' rest).map fun (outer, rest) =>
            (.header true path key ⟨start, outer.stop⟩, rest)
        else some (.header false path key ⟨start, inner.stop⟩, rest) := by
  unfold closeHeader
  split
  · simp only [afterMark?_mark, Option.bind_some]
    split
    · split
      · rw [afterMark?_mark]; rfl
      · next hno => rw [afterMark?_eq_none hno]; rfl
    · rfl
  · next hno => rw [afterMark?_eq_none hno]; rfl

theorem readStatement_eq (fuel : Nat) (ts : List Token) :
    readStatement fuel ts =
      match afterMark? '[' ts with
      | some (span, rest) =>
        match afterMark? '[' rest with
        | some (_, rest) => readHeader true span.start rest
        | none => readHeader false span.start rest
      | none =>
        (readAssign skipBlank fuel maxNesting ts).map fun (path, key, value, rest) =>
          (.assign path key value, rest) := by
  unfold readStatement
  split
  · simp [afterMark?]
  · next hno =>
    rw [afterMark?_mark]
    simp only [afterMark?_eq_none hno]
  · next hno => rw [afterMark?_eq_none hno]

theorem readStatement_succ {fuel : Nat} {ts : List Token} {r : Statement × List Token}
    (h : readStatement fuel ts = some r) : readStatement (fuel + 1) ts = some r := by
  rw [readStatement_eq] at h ⊢
  cases hm : afterMark? '[' ts with
  | some p => simpa only [hm] using h
  | none =>
    simp only [hm] at h ⊢
    obtain ⟨p, hp, rfl⟩ := Option.map_eq_some_iff.mp h
    simp only [(keeps fuel).assign hp, Option.map_some]

theorem readStatements_succ {fuel : Nat} {ts : List Token} {statements : List Statement}
    (h : readStatements fuel ts = some statements) :
    readStatements (fuel + 1) ts = some statements := by
  induction fuel generalizing ts statements with
  | zero => cases h
  | succ fuel ih =>
    rw [readStatements] at h ⊢
    cases hts : skipLines ts with
    | nil => simpa only [hts] using h
    | cons t rest =>
      simp only [hts] at h ⊢
      cases hs : readStatement fuel (t :: rest) with
      | none => rw [hs] at h; cases h
      | some p =>
        rw [hs] at h
        rw [readStatement_succ hs]
        simp only at h ⊢
        cases he : endLine? p.2 with
        | none => simp only [he] at h; cases h
        | some rest =>
          simp only [he] at h ⊢
          obtain ⟨others, hothers, rfl⟩ := Option.map_eq_some_iff.mp h
          simp only [ih hothers, Option.map_some]

theorem readStatements_mono {fuel more : Nat} {ts : List Token} {statements : List Statement}
    (h : readStatements fuel ts = some statements) (hle : fuel ≤ more) :
    readStatements more ts = some statements := by
  induction hle with
  | refl => exact h
  | step _ ih => exact readStatements_succ ih

end Stencil.Document
