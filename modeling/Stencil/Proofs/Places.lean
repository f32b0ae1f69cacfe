import Stencil.Proofs.Reading

/-! What a document says does not depend on where its parts stand. Forgetting all places commutes
with reading: with the readers of keys and values, with the statements, and with how they add up
to one table. -/

namespace Stencil.Document

def nowhere : Span :=
  ⟨0, 0⟩

def Token.erase (t : Token) : Token :=
  { t with span := nowhere }

def Key.erase (key : Key) : Key :=
  { key with span := nowhere }

mutual

/-- The value without its places. -/
def Value.erase : Value → Value
  | .string _ s => .string nowhere s
  | .integer _ n => .integer nowhere n
  | .float _ x => .float nowhere x
  | .boolean _ b => .boolean nowhere b
  | .datetime _ => .datetime nowhere
  | .array _ fromHeaders items => .array nowhere fromHeaders (eraseItems items)
  | .table _ origin entries => .table nowhere origin (eraseEntries entries)

def eraseItems : List Value → List Value
  | [] => []
  | v :: vs => v.erase :: eraseItems vs

def eraseEntries : List (Key × Value) → List (Key × Value)
  | [] => []
  | (key, v) :: rest => (key.erase, v.erase) :: eraseEntries rest

end

def eraseTokens (ts : List Token) : List Token :=
  ts.map Token.erase

@[simp] theorem eraseTokens_nil : eraseTokens [] = [] :=
  rfl

@[simp] theorem eraseTokens_cons (t : Token) (ts : List Token) :
    eraseTokens (t :: ts) = t.erase :: eraseTokens ts :=
  rfl

theorem skipBlank_erase (ts : List Token) :
    skipBlank (eraseTokens ts) = eraseTokens (skipBlank ts) := by
  match ts with
  | [] => rfl
  | ⟨lexeme, span⟩ :: ts => cases lexeme <;> rfl

theorem skipLines_erase (ts : List Token) :
    skipLines (eraseTokens ts) = eraseTokens (skipLines ts) := by
  induction ts with
  | nil => rfl
  | cons t ts ih =>
    obtain ⟨lexeme, span⟩ := t
    cases lexeme <;> first | exact ih | rfl

theorem simpleKey?_erase (t : Token) : simpleKey? t.erase = (simpleKey? t).map Key.erase := by
  obtain ⟨lexeme, span⟩ := t
  cases lexeme with
  | bare text =>
    by_cases h : text.all isBareKeyChar = true <;> simp [Token.erase, simpleKey?, h, Key.erase]
  | quoted long text => cases long <;> rfl
  | _ => rfl

theorem afterMark?_erase (c : Char) (ts : List Token) :
    afterMark? c (eraseTokens ts) =
      (afterMark? c ts).map fun (_, rest) => (nowhere, eraseTokens rest) := by
  rcases ts with _ | ⟨⟨lexeme, span⟩, rest⟩
  · rfl
  · cases lexeme with
    | mark d => by_cases h : d = c <;> simp [afterMark?, Token.erase, h]
    | _ => rfl

theorem length_skipBlank_le (ts : List Token) : (skipBlank ts).length ≤ ts.length := by
  rcases ts with _ | ⟨⟨lexeme, span⟩, ts⟩
  · exact Nat.le_refl 0
  · cases lexeme <;> simp [skipBlank]

theorem readKey_erase (ts : List Token) :
    readKey (eraseTokens ts) = (readKey ts).map fun (path, key, rest) =>
      (path.map Key.erase, key.erase, eraseTokens rest) := by
  -- A dot and the blanks around it are dropped at each step, so the induction is on the length.
  induction hn : ts.length using Nat.strongRecOn generalizing ts with
  | _ n ih =>
    rcases ts with _ | ⟨t, ts⟩
    · rfl
    · rw [eraseTokens_cons, readKey_cons, readKey_cons, simpleKey?_erase]
      cases simpleKey? t with
      | none => rfl
      | some key =>
        simp only [Option.map_some, Option.bind_some]
        rw [skipBlank_erase, afterMark?_erase]
        cases hdot : afterMark? '.' (skipBlank ts) with
        | none => rfl
        | some p =>
          obtain ⟨span, rest⟩ := p
          have hlt : (skipBlank rest).length < n := by
            have hts := congrArg List.length (afterMark?_eq_some_iff.mp hdot)
            have h₁ := length_skipBlank_le ts
            have h₂ := length_skipBlank_le rest
            simp only [List.length_cons] at hts hn
            omega
          simp only [Option.map_some]
          rw [skipBlank_erase, ih _ hlt _ rfl]
          cases readKey (skipBlank rest) <;> rfl

theorem joinBare_erase (stop : Nat) (ts : List Token) :
    joinBare 0 (eraseTokens ts) =
      ((joinBare stop ts).1, 0, eraseTokens (joinBare stop ts).2.2) := by
  induction ts generalizing stop with
  | nil => rfl
  | cons t ts ih =>
    obtain ⟨lexeme, span⟩ := t
    cases lexeme with
    | bare text => simp [Token.erase, joinBare, nowhere, ih span.stop]
    | mark c =>
      by_cases hc : c = '.'
      · subst hc
        simp [Token.erase, joinBare, nowhere, ih span.stop]
      · simp [Token.erase, joinBare, hc]
    | _ => rfl

theorem unquoted_erase (start : Nat) (ts : List Token) :
    unquoted 0 (eraseTokens ts) =
      ((unquoted start ts).1, 0, eraseTokens (unquoted start ts).2.2) := by
  unfold unquoted
  rw [joinBare_erase start]
  generalize joinBare start ts = joined
  obtain ⟨text, stop, rest⟩ := joined
  rcases rest with _ | ⟨⟨first, place⟩, _ | ⟨⟨second, span⟩, more⟩⟩
  · rfl
  · simp [Token.erase]
  · simp only [eraseTokens_cons, Token.erase]
    cases first with
    | blank text =>
      by_cases ht : text = [' ']
      · subst ht
        cases second with
        | bare word =>
          rcases word with _ | ⟨c, cs⟩
          · rfl
          · have hjoin := joinBare_erase span.stop (⟨.bare (c :: cs), span⟩ :: more)
            simp only [eraseTokens_cons, Token.erase] at hjoin
            simp only [nowhere] at hjoin ⊢
            rw [hjoin]
            split <;> rfl
        | _ => rfl
      · simp [ht, Token.erase]
    | _ => rfl

theorem readUnquoted_erase (start : Nat) (ts : List Token) :
    readUnquoted 0 (eraseTokens ts) =
      (readUnquoted start ts).map fun (value, rest) => (value.erase, eraseTokens rest) := by
  unfold readUnquoted
  rw [unquoted_erase start]
  generalize unquoted start ts = taken
  obtain ⟨text, stop, rest⟩ := taken
  simp only
  cases readScalar text with
  | none => rfl
  | some scalar => cases scalar <;> rfl

/-! Entries and tables. -/

theorem get?_erase (name : String) (entries : Entries) :
    Entries.get? name (eraseEntries entries) = (Entries.get? name entries).map Value.erase := by
  induction entries with
  | nil => rfl
  | cons entry entries ih =>
    obtain ⟨key, value⟩ := entry
    by_cases h : key.name = name
    · simp [Entries.get?, eraseEntries, Key.erase, h]
    · simp only [Entries.get?] at ih
      simp [Entries.get?, eraseEntries, Key.erase, h, ih]

theorem add?_erase (key : Key) (value : Value) (entries : Entries) :
    Entries.add? key.erase value.erase (eraseEntries entries) =
      (Entries.add? key value entries).map eraseEntries := by
  induction entries with
  | nil => rfl
  | cons entry entries ih =>
    obtain ⟨k, v⟩ := entry
    simp only [eraseEntries, Entries.add?]
    rw [ih]
    have hname : ∀ key : Key, key.erase.name = key.name := fun _ => rfl
    rw [hname, hname]
    split
    · rfl
    · split
      · rfl
      · cases Entries.add? key value entries <;> rfl

theorem modify?_erase {f g : Key → Value → Option (Key × Value)}
    (hfg : ∀ k v, g k.erase v.erase = (f k v).map fun (k, v) => (k.erase, v.erase))
    (name : String) (entries : Entries) :
    Entries.modify? name g (eraseEntries entries) =
      (Entries.modify? name f entries).map eraseEntries := by
  induction entries with
  | nil => rfl
  | cons entry entries ih =>
    obtain ⟨k, v⟩ := entry
    simp only [eraseEntries, Entries.modify?]
    rw [ih, hfg]
    have hname : k.erase.name = k.name := rfl
    rw [hname]
    split
    · cases f k v <;> rfl
    · cases Entries.modify? name f entries <;> rfl

theorem modifyLast?_erase {f g : Value → Option Value}
    (hfg : ∀ v, g v.erase = (f v).map Value.erase) (items : List Value) :
    modifyLast? g (eraseItems items) = (modifyLast? f items).map eraseItems := by
  induction items with
  | nil => rfl
  | cons v vs ih =>
    cases vs with
    | nil =>
      simp only [eraseItems, modifyLast?]
      rw [hfg]
      cases f v <;> rfl
    | cons w ws =>
      simp only [eraseItems, modifyLast?] at ih ⊢
      rw [ih]
      cases modifyLast? f (w :: ws) <;> rfl

section Changes

variable {f g : TableOrigin → Entries → Option Entries}
  (hfg : ∀ origin entries, g origin (eraseEntries entries) = (f origin entries).map eraseEntries)
  (isDotted : Bool)

include hfg

theorem enter?_erase (v : Value) :
    enter? isDotted g v.erase = (enter? isDotted f v).map Value.erase := by
  cases v with
  | table span origin inner =>
    simp only [Value.erase, enter?]
    split
    · rfl
    · rw [hfg]
      cases f origin inner <;> rfl
  | array span fromHeaders items =>
    cases fromHeaders with
    | false => rfl
    | true =>
      have hchanged : ∀ changed : Option (List Value),
          (changed.map eraseItems).map (.array nowhere true) =
            (changed.map (.array span true)).map Value.erase := by
        intro changed
        cases changed <;> rfl
      simp only [Value.erase, enter?]
      refine (congrArg _ (modifyLast?_erase ?_ items)).trans (hchanged _)
      intro w
      cases w with
      | table s origin inner =>
        simp only [Value.erase]
        rw [hfg]
        cases f origin inner <;> rfl
      | _ => rfl
  | _ => rfl

theorem modifyAt?_erase (path : List Key) (origin : TableOrigin) (entries : Entries) :
    modifyAt? isDotted g (path.map Key.erase) origin (eraseEntries entries) =
      (modifyAt? isDotted f path origin entries).map eraseEntries := by
  induction path generalizing origin entries with
  | nil => exact hfg origin entries
  | cons key path ih =>
    simp only [List.map_cons, modifyAt?]
    have hname : key.erase.name = key.name := rfl
    rw [hname, get?_erase]
    cases Entries.get? key.name entries with
    | none =>
      simp only [Option.map_none]
      have hempty := ih (if isDotted then .dotted else .implied) []
      simp only [eraseEntries] at hempty
      rw [hempty]
      cases modifyAt? isDotted f path (if isDotted then .dotted else .implied) [] with
      | none => rfl
      | some inner => exact add?_erase key (.table key.span _ inner) entries
    | some old =>
      simp only [Option.map_some]
      refine modify?_erase (fun k v => ?_) key.name entries
      rw [enter?_erase ih]
      cases enter? isDotted (modifyAt? isDotted f path) v <;> rfl

end Changes

theorem assign?_erase (path : List Key) (key : Key) (value : Value) (entries : Entries) :
    assign? (path.map Key.erase) key.erase value.erase (eraseEntries entries) =
      (assign? path key value entries).map eraseEntries := by
  refine modifyAt?_erase (fun origin entries => ?_) true path .header entries
  simp only [List.isEmpty_map]
  split
  · exact add?_erase key value entries
  · rfl

theorem openTable?_erase (key : Key) (span : Span) (entries : Entries) :
    openTable? key.erase nowhere (eraseEntries entries) =
      (openTable? key span entries).map eraseEntries := by
  have hname : key.erase.name = key.name := rfl
  simp only [openTable?]
  rw [hname, get?_erase]
  cases Entries.get? key.name entries with
  | none => exact add?_erase key (.table span .header []) entries
  | some old =>
    refine modify?_erase (fun k v => ?_) key.name entries
    cases v with
    | table s origin inner => cases origin <;> rfl
    | _ => rfl

theorem eraseItems_append (vs ws : List Value) :
    eraseItems (vs ++ ws) = eraseItems vs ++ eraseItems ws := by
  induction vs with
  | nil => rfl
  | cons v vs ih => rw [List.cons_append, eraseItems, eraseItems, ih, List.cons_append]

theorem openItem?_erase (key : Key) (span : Span) (entries : Entries) :
    openItem? key.erase nowhere (eraseEntries entries) =
      (openItem? key span entries).map eraseEntries := by
  have hname : key.erase.name = key.name := rfl
  simp only [openItem?]
  rw [hname, get?_erase]
  cases Entries.get? key.name entries with
  | none => exact add?_erase key (.array span true [.table span .header []]) entries
  | some old =>
    refine modify?_erase (fun k v => ?_) key.name entries
    cases v with
    | array s fromHeaders items =>
      cases fromHeaders with
      | false => rfl
      | true => simp [Value.erase, eraseItems_append, eraseItems, eraseEntries]
    | _ => rfl

/-- Each reader commutes with forgetting places. -/
structure Erases (fuel : Nat) : Prop where
  value : ∀ nesting ts, readValue fuel nesting (eraseTokens ts) =
    (readValue fuel nesting ts).map fun (value, rest) => (value.erase, eraseTokens rest)
  items : ∀ nesting ts, readItems fuel nesting (eraseTokens ts) =
    (readItems fuel nesting ts).map fun (items, _, rest) => (eraseItems items, 0, eraseTokens rest)
  entries : ∀ nesting entries ts, readEntries fuel nesting (eraseEntries entries) (eraseTokens ts) =
    (readEntries fuel nesting entries ts).map fun (entries, _, rest) =>
      (eraseEntries entries, 0, eraseTokens rest)
  assign : ∀ {skip : List Token → List Token},
    (∀ ts, skip (eraseTokens ts) = eraseTokens (skip ts)) → ∀ nesting ts,
    readAssign skip fuel nesting (eraseTokens ts) =
      (readAssign skip fuel nesting ts).map fun (path, key, value, rest) =>
        (path.map Key.erase, key.erase, value.erase, eraseTokens rest)

namespace Erases

theorem zero : Erases 0 where
  value _ _ := by rw [readValue, readValue]; rfl
  items _ _ := by rw [readItems, readItems]; rfl
  entries _ _ _ := by rw [readEntries, readEntries]; rfl
  assign _ _ _ := by rw [readAssign, readAssign]; rfl

variable {fuel : Nat} (erases : Erases fuel) (nesting : Nat) (ts : List Token)

include erases

theorem value_succ : readValue (fuel + 1) nesting (eraseTokens ts) =
    (readValue (fuel + 1) nesting ts).map fun (value, rest) => (value.erase, eraseTokens rest) := by
  rcases ts with _ | ⟨⟨lexeme, span⟩, ts⟩
  · rw [eraseTokens_nil, readValue]
    · rfl
    · exact Nat.succ_ne_zero fuel
  · rw [eraseTokens_cons, readValue_succ, readValue_succ]
    cases lexeme with
    | bare text => exact readUnquoted_erase span.start (⟨.bare text, span⟩ :: ts)
    | mark c =>
      have hnil := erases.entries (nesting - 1) [] (skipLines ts)
      rw [eraseEntries] at hnil
      simp only [Token.erase]
      rw [skipLines_erase, erases.items, hnil]
      split
      · cases readItems fuel (nesting - 1) (skipLines ts) <;> rfl
      · split
        · cases readEntries fuel (nesting - 1) [] (skipLines ts) <;> rfl
        · rfl
    | _ => rfl

theorem items_succ : readItems (fuel + 1) nesting (eraseTokens ts) =
    (readItems (fuel + 1) nesting ts).map fun (items, _, rest) =>
      (eraseItems items, 0, eraseTokens rest) := by
  rw [readItems_succ, readItems_succ, afterMark?_erase]
  cases afterMark? ']' ts with
  | some p => rfl
  | none =>
    simp only [Option.map_none]
    rw [erases.value]
    cases readValue fuel nesting ts with
    | none => rfl
    | some p =>
      obtain ⟨item, rest⟩ := p
      simp only [Option.map_some, Option.bind_some]
      rw [skipLines_erase, afterMark?_erase, afterMark?_erase]
      cases afterMark? ']' (skipLines rest) with
      | some q => rfl
      | none =>
        cases afterMark? ',' (skipLines rest) with
        | none => rfl
        | some q =>
          obtain ⟨span, rest⟩ := q
          simp only [Option.map_some, Option.map_none, Option.bind_some]
          rw [skipLines_erase, erases.items]
          cases readItems fuel nesting (skipLines rest) <;> rfl

theorem entries_succ (entries : Entries) :
    readEntries (fuel + 1) nesting (eraseEntries entries) (eraseTokens ts) =
      (readEntries (fuel + 1) nesting entries ts).map fun (entries, _, rest) =>
        (eraseEntries entries, 0, eraseTokens rest) := by
  rw [readEntries_succ, readEntries_succ, afterMark?_erase]
  cases afterMark? '\x7d' ts with
  | some p => rfl
  | none =>
    simp only [Option.map_none]
    rw [erases.assign skipLines_erase]
    cases readAssign skipLines fuel nesting ts with
    | none => rfl
    | some p =>
      obtain ⟨path, key, value, rest⟩ := p
      simp only [Option.map_some, Option.bind_some]
      rw [assign?_erase, skipLines_erase, afterMark?_erase, afterMark?_erase]
      cases assign? path key value entries with
      | none => rfl
      | some entries =>
        cases afterMark? '\x7d' (skipLines rest) with
        | some q => rfl
        | none =>
          cases afterMark? ',' (skipLines rest) with
          | none => rfl
          | some q =>
            obtain ⟨span, rest⟩ := q
            simp only [Option.map_some, Option.map_none, Option.bind_some]
            rw [skipLines_erase, erases.entries]

theorem assign_succ {skip : List Token → List Token}
    (hskip : ∀ ts, skip (eraseTokens ts) = eraseTokens (skip ts)) :
    readAssign skip (fuel + 1) nesting (eraseTokens ts) =
      (readAssign skip (fuel + 1) nesting ts).map fun (path, key, value, rest) =>
        (path.map Key.erase, key.erase, value.erase, eraseTokens rest) := by
  rw [readAssign_succ, readAssign_succ, readKey_erase]
  cases readKey ts with
  | none => rfl
  | some p =>
    obtain ⟨path, key, rest⟩ := p
    simp only [Option.map_some, Option.bind_some]
    rw [hskip, afterMark?_erase]
    cases afterMark? '=' (skip rest) with
    | none => rfl
    | some q =>
      obtain ⟨span, rest⟩ := q
      simp only [Option.map_some, Option.bind_some]
      rw [hskip, erases.value]
      cases readValue fuel nesting (skip rest) <;> rfl

theorem succ : Erases (fuel + 1) where
  value := erases.value_succ
  items := erases.items_succ
  entries nesting entries ts := erases.entries_succ nesting ts entries
  assign hskip nesting ts := erases.assign_succ nesting ts hskip

end Erases

theorem erases (fuel : Nat) : Erases fuel := by
  induction fuel with
  | zero => exact Erases.zero
  | succ fuel ih => exact ih.succ

/-! Statements. -/

def Statement.erase : Statement → Statement
  | .header isArray path key _ => .header isArray (path.map Key.erase) key.erase nowhere
  | .assign path key value => .assign (path.map Key.erase) key.erase value.erase

def Draft.erase (draft : Draft) : Draft where
  entries := eraseEntries draft.entries
  current := draft.current.map Key.erase

theorem Draft.add?_erase (draft : Draft) (statement : Statement) :
    draft.erase.add? statement.erase = (draft.add? statement).map Draft.erase := by
  cases statement with
  | header isArray path key span =>
    simp only [Statement.erase, Draft.add?, Draft.erase]
    rw [modifyAt?_erase (f := fun _ entries =>
      (if isArray then openItem? key span else openTable? key span) entries)]
    · generalize modifyAt? _ _ path _ draft.entries = changed
      cases changed with
      | none => rfl
      | some entries => simp [Draft.erase]
    · intro _ entries
      cases isArray with
      | true => exact openItem?_erase key span entries
      | false => exact openTable?_erase key span entries
  | assign path key value =>
    simp only [Statement.erase, Draft.add?, Draft.erase]
    rw [modifyAt?_erase (f := fun _ entries => assign? path key value entries)
      fun _ entries => assign?_erase path key value entries]
    generalize modifyAt? _ _ draft.current _ draft.entries = changed
    cases changed <;> rfl

theorem closeHeader_erase (isArray : Bool) (start : Nat) (path : List Key) (key : Key)
    (ts : List Token) :
    closeHeader isArray 0 (path.map Key.erase) key.erase (eraseTokens ts) =
      (closeHeader isArray start path key ts).map fun (statement, rest) =>
        (statement.erase, eraseTokens rest) := by
  rw [closeHeader_eq, closeHeader_eq, afterMark?_erase]
  cases afterMark? ']' ts with
  | none => rfl
  | some p =>
    obtain ⟨inner, rest⟩ := p
    simp only [Option.map_some, Option.bind_some]
    rw [afterMark?_erase]
    cases isArray with
    | false => rfl
    | true => cases afterMark? ']' rest <;> rfl

theorem readHeader_erase (isArray : Bool) (start : Nat) (ts : List Token) :
    readHeader isArray 0 (eraseTokens ts) =
      (readHeader isArray start ts).map fun (statement, rest) =>
        (statement.erase, eraseTokens rest) := by
  unfold readHeader
  rw [skipBlank_erase, readKey_erase]
  cases readKey (skipBlank ts) with
  | none => rfl
  | some p => exact closeHeader_erase isArray start p.1 p.2.1 p.2.2

theorem readStatement_erase (fuel : Nat) (ts : List Token) :
    readStatement fuel (eraseTokens ts) =
      (readStatement fuel ts).map fun (statement, rest) =>
        (statement.erase, eraseTokens rest) := by
  rw [readStatement_eq, readStatement_eq, afterMark?_erase]
  cases afterMark? '[' ts with
  | some p =>
    obtain ⟨span, rest⟩ := p
    simp only [Option.map_some]
    rw [afterMark?_erase]
    cases afterMark? '[' rest with
    | some q => exact readHeader_erase true span.start q.2
    | none => exact readHeader_erase false span.start rest
  | none =>
    simp only [Option.map_none]
    rw [(erases fuel).assign skipBlank_erase]
    cases readAssign skipBlank fuel maxNesting ts <;> rfl

theorem endLine?_erase (ts : List Token) :
    endLine? (eraseTokens ts) = (endLine? ts).map eraseTokens := by
  unfold endLine?
  rw [skipBlank_erase]
  rcases skipBlank ts with _ | ⟨⟨lexeme, span⟩, rest⟩
  · rfl
  · cases lexeme with
    | comment =>
      rcases rest with _ | ⟨⟨lexeme, span⟩, rest⟩
      · rfl
      · cases lexeme <;> rfl
    | _ => rfl

theorem readStatements_erase (fuel : Nat) (ts : List Token) :
    readStatements fuel (eraseTokens ts) =
      (readStatements fuel ts).map (List.map Statement.erase) := by
  induction fuel generalizing ts with
  | zero => rfl
  | succ fuel ih =>
    simp only [readStatements]
    rw [skipLines_erase]
    cases skipLines ts with
    | nil => rfl
    | cons t ts =>
      simp only [eraseTokens_cons]
      rw [← eraseTokens_cons, readStatement_erase]
      cases readStatement fuel (t :: ts) with
      | none => rfl
      | some p =>
        obtain ⟨statement, rest⟩ := p
        simp only [Option.map_some]
        rw [endLine?_erase]
        cases endLine? rest with
        | none => rfl
        | some rest =>
          simp only [Option.map_some]
          rw [ih]
          cases readStatements fuel rest <;> rfl

theorem document?_erase (statements : List Statement) :
    document? (statements.map Statement.erase) = (document? statements).map eraseEntries := by
  have hfold : ∀ draft : Draft, (statements.map Statement.erase).foldlM Draft.add? draft.erase =
      (statements.foldlM Draft.add? draft).map Draft.erase := by
    induction statements with
    | nil => intro draft; rfl
    | cons statement statements ih =>
      intro draft
      rw [List.map_cons, List.foldlM_cons, List.foldlM_cons, Draft.add?_erase]
      cases draft.add? statement with
      | none => rfl
      | some next => exact ih next
  have hstart : ({} : Draft).erase = {} := rfl
  unfold document?
  rw [← hstart, hfold, hstart]
  cases statements.foldlM Draft.add? {} <;> rfl

end Stencil.Document
