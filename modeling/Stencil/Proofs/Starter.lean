import Stencil.Proofs.Acceptance
import Stencil.Proofs.Commands
import Stencil.Proofs.Scanning

/-! The starter of a manifest, into which a name is put between quotes. If the name has no quote
and no backslash, the starter is read as a manifest of that name or not at all, and it is accepted
exactly for dotted names; so what is written can be checked and rendered. A quote in the name ends
the quoted text early, and then the name that is read is another one. -/

namespace Stencil

open Document

/-! The lexemes of a starter. -/

def equalsSign : List Lexeme :=
  [.blank [' '], .mark '=', .blank [' ']]

def assignLine (key : String) (value : List Lexeme) : List Lexeme :=
  .bare key.toList :: equalsSign ++ value ++ [.newline]

def textLine (key text : String) : List Lexeme :=
  assignLine key [.quoted false text]

def tableLine (key : String) : List Lexeme :=
  [.mark '[', .bare key.toList, .mark ']', .newline]

def itemLine (key : List Lexeme) : List Lexeme :=
  [.mark '[', .mark '['] ++ key ++ [.mark ']', .mark ']', .newline]

def dataclassItem : List Lexeme :=
  [.mark '[', .quoted false "dataclass", .mark ']']

def greetingItem : List Lexeme :=
  [.mark '[', .mark '\x7b', .blank [' '], .bare "name".toList] ++ equalsSign
    ++ [.quoted false "greeting", .mark ',', .blank [' '], .bare "value".toList] ++ equalsSign
    ++ [.quoted false "'Hello'", .blank [' '], .mark '\x7d', .mark ']']

def greetArgs : List Lexeme :=
  [.mark '[', .quoted false "self", .mark ',', .blank [' '], .quoted false "who: str", .mark ']']

def starterOpening : List Lexeme :=
  tableLine "module" ++ .bare "name".toList :: equalsSign

def starterClosing : List Lexeme :=
  [.newline] ++ textLine "header" "Generated by pyper. Do not edit."
    ++ [.newline] ++ tableLine "style"
    ++ textLine "indent" "spaces4"
    ++ textLine "line_ending" "lf"
    ++ [.newline] ++ itemLine [.bare "imports".toList]
    ++ textLine "module" "dataclasses"
    ++ assignLine "symbols" dataclassItem
    ++ [.newline] ++ itemLine [.bare "classes".toList]
    ++ textLine "name" "Greeter"
    ++ assignLine "decorators" dataclassItem
    ++ assignLine "attributes" greetingItem
    ++ [.newline] ++ itemLine [.bare "classes".toList, .mark '.', .bare "methods".toList]
    ++ textLine "name" "greet"
    ++ assignLine "args" greetArgs
    ++ textLine "returns" "str"
    ++ textLine "body" "return f'\x7bself.greeting\x7d, \x7bwho\x7d!'"
    ++ [.newline] ++ itemLine [.bare "functions".toList]
    ++ textLine "name" "main"
    ++ textLine "body" "print(Greeter().greet('world'))"

def starterLexemes (name : String) : List Lexeme :=
  starterOpening ++ .quoted false name :: starterClosing

def Spells (s : String) (lexemes : List Lexeme) : Prop :=
  s.toList = spelling lexemes

theorem Spells.add {s t : String} {front back more : List Lexeme} {lexeme : Lexeme}
    (hs : Spells s (front ++ lexeme :: back)) (ht : Spells t more) :
    Spells (s ++ t) (front ++ lexeme :: (back ++ more)) := by
  have hmore : front ++ lexeme :: (back ++ more) = (front ++ lexeme :: back) ++ more := by simp
  rw [hmore, Spells, String.toList_append, spelling_append, ← hs, ← ht]

theorem spells_newline : Spells "\n" [.newline] :=
  rfl

theorem spells_tableLine (key : String) : Spells ("[" ++ key ++ "]\n") (tableLine key) := by
  simp [Spells, tableLine, spelling, Lexeme.spelling]

theorem spells_itemLine (key : String) :
    Spells ("[[" ++ key ++ "]]\n") (itemLine [.bare key.toList]) := by
  simp [Spells, itemLine, spelling, Lexeme.spelling]

theorem spells_textLine (key text : String) :
    Spells (key ++ " = \"" ++ text ++ "\"\n") (textLine key text) := by
  simp [Spells, textLine, assignLine, equalsSign, spelling, Lexeme.spelling]

theorem spells_starterOpening (name : String) :
    Spells ("[module]\n" ++ "name = \"" ++ name ++ "\"\n")
      (starterOpening ++ .quoted false name :: [.newline]) := by
  simp [Spells, starterOpening, tableLine, equalsSign, spelling, Lexeme.spelling]

theorem spells_starter (name : String) : Spells (starter name) (starterLexemes name) := by
  have hheader := (spells_starterOpening name).add
    (spells_textLine "header" "Generated by pyper. Do not edit.")
  have hstyle := ((hheader.add spells_newline).add (spells_tableLine "style")).add
    (spells_textLine "indent" "spaces4") |>.add (spells_textLine "line_ending" "lf")
  have himports := ((hstyle.add spells_newline).add (spells_itemLine "imports")).add
    (spells_textLine "module" "dataclasses")
  have hsymbols : Spells "symbols = [\"dataclass\"]\n" (assignLine "symbols" dataclassItem) := rfl
  have hclass := (((himports.add hsymbols).add spells_newline).add
    (spells_itemLine "classes")).add (spells_textLine "name" "Greeter")
  have hdecorators : Spells "decorators = [\"dataclass\"]\n"
      (assignLine "decorators" dataclassItem) := rfl
  have hattributes : Spells "attributes = [\x7b name = \"greeting\", value = \"'Hello'\" \x7d]\n"
      (assignLine "attributes" greetingItem) := rfl
  have hmethods : Spells "[[classes.methods]]\n"
      (itemLine [.bare "classes".toList, .mark '.', .bare "methods".toList]) := rfl
  have hmethod := ((((hclass.add hdecorators).add hattributes).add spells_newline).add
    hmethods).add (spells_textLine "name" "greet")
  have hargs : Spells "args = [\"self\", \"who: str\"]\n" (assignLine "args" greetArgs) := rfl
  have hbody := ((hmethod.add hargs).add (spells_textLine "returns" "str")).add
    (spells_textLine "body" "return f'\x7bself.greeting\x7d, \x7bwho\x7d!'")
  have hmain := (((hbody.add spells_newline).add (spells_itemLine "functions")).add
    (spells_textLine "name" "main")).add
    (spells_textLine "body" "print(Greeter().greet('world'))")
  exact hmain

theorem toList_starter (name : String) :
    (starter name).toList =
      spelling starterOpening ++ '"' :: (name.toList ++ '"' :: spelling starterClosing) := by
  have hstarter : (starter name).toList = spelling (starterLexemes name) := spells_starter name
  rw [hstarter, starterLexemes, spelling_append, spelling_cons]
  simp [Lexeme.spelling]

theorem all_isSpelled_starterOpening : starterOpening.all Lexeme.isSpelled = true := by
  rfl

set_option maxRecDepth 8000 in
theorem all_isSpelled_starterClosing : starterClosing.all Lexeme.isSpelled = true := by
  rfl

theorem isSpread_starterOpening : isSpread starterOpening = true := by
  rfl

set_option maxRecDepth 4000 in
theorem isSpread_starterClosing : isSpread starterClosing = true := by
  rfl

theorem unmarked_starter (name : String) : Unmarked (starter name).toList := by
  rw [toList_starter]
  simp [Unmarked, starterOpening, tableLine, spelling, Lexeme.spelling]

/-- What stands between the quotes is scanned by itself. -/
theorem scans_starter_iff {name : String} {found : List Lexeme} :
    Scans (starter name).toList found ↔
      ∃ more, found = starterOpening ++ more ∧
        Scans ('"' :: (name.toList ++ '"' :: spelling starterClosing)) more := by
  rw [toList_starter]
  refine scans_spelling_append_iff all_isSpelled_starterOpening isSpread_starterOpening ?_
  intro l hl c hc
  obtain rfl : '"' = c := Option.some.inj hc
  obtain rfl : Lexeme.blank [' '] = l := Option.some.inj hl
  rfl

theorem scans_starterClosing : Scans (spelling starterClosing) starterClosing := by
  rw [← List.append_nil (spelling starterClosing)]
  refine (scans_spelling_append_iff all_isSpelled_starterClosing isSpread_starterClosing ?_).mpr
    ⟨[], (List.append_nil _).symm, .nil⟩
  intro l _ c hc
  cases hc

theorem head?_spelling_starterClosing : (spelling starterClosing).head? = some '\n' := by
  rfl

/-! Reading a starter. -/

def starterManifest (name : String) : Manifest where
  info := { name := name, header := some "Generated by pyper. Do not edit." }
  style := { indent := .spaces 4, lineEnding := .lf }
  imports := [{ source := "dataclasses", symbols := ["dataclass"] }]
  classes :=
    [{ name := "Greeter"
       decorators := [.named "dataclass"]
       attributes := [{ name := "greeting", value := "'Hello'" }]
       methods :=
        [{ name := "greet"
           args := ["self", "who: str"]
           returns := some "str"
           body := some "return f'\x7bself.greeting\x7d, \x7bwho\x7d!'" }] }]
  functions := [{ name := "main", body := some "print(Greeter().greet('world'))" }]

set_option maxRecDepth 4000 in
theorem ofLexemes?_starterLexemes (name : String) :
    manifestRecord.ofLexemes? {} (starterLexemes name) = some (starterManifest name) := by
  with_unfolding_all rfl

theorem read_starter_of_literal {name : String} (h : name.toList.all isLiteral = true) :
    Manifest.read (starter name) = .ok (starterManifest name) := by
  obtain ⟨size, hname⟩ : ∃ size, lexeme? ('"' :: (name.toList ++ '"' :: spelling starterClosing)) =
      some (.quoted false name, size, spelling starterClosing) := by
    refine lexeme?_quoted h fun c hc => ?_
    rw [head?_spelling_starterClosing] at hc
    obtain rfl : '\n' = c := Option.some.inj hc
    decide
  have hscans : Scans (starter name).toList (starterLexemes name) :=
    scans_starter_iff.mpr ⟨_, rfl, .cons hname scans_starterClosing⟩
  have hspelled : (starterLexemes name).all Lexeme.isSpelled = true := by
    rw [starterLexemes, List.all_append, List.all_cons, all_isSpelled_starterOpening,
      all_isSpelled_starterClosing]
    simpa [Lexeme.isSpelled] using h
  have hlen : (starterLexemes name).length ≤ (starter name).toList.length := by
    have hspells : (starter name).toList = spelling (starterLexemes name) := spells_starter name
    rw [hspells]
    exact length_le_length_spelling hspelled
  exact (Record.readDocument_eq_ok_iff placeFree_manifestRecord (unmarked_starter name)).mpr
    ⟨_, hscans, hlen, ofLexemes?_starterLexemes name⟩

/-- No character of the text ends quoted text or begins an escape in it. -/
def Inert (cs : List Char) : Prop :=
  '"' ∉ cs ∧ '\\' ∉ cs

theorem Inert.ne {cs : List Char} (h : Inert cs) {c : Char} (hc : c ∈ cs) :
    c ≠ '"' ∧ c ≠ '\\' :=
  ⟨fun he => h.1 (he ▸ hc), fun he => h.2 (he ▸ hc)⟩

theorem readBasic_of_forbidden {text : List Char} (hinert : Inert text)
    (hbad : ∃ c ∈ text, isForbidden c = true) (rest : List Char) :
    readBasic .plain (text ++ rest) = none := by
  induction text with
  | nil =>
    obtain ⟨c, hc, -⟩ := hbad
    cases hc
  | cons c text ih =>
    have hc := hinert.ne List.mem_cons_self
    have htext : Inert text := ⟨List.not_mem_of_not_mem_cons hinert.1,
      List.not_mem_of_not_mem_cons hinert.2⟩
    rw [List.cons_append, readBasic]
    simp only [hc, if_false]
    by_cases hf : isForbidden c = true
    · rw [if_pos hf]
    · rw [if_neg hf, ih htext (by simpa [hf] using hbad)]
      rfl

/-- A name that has no quote and no backslash but a control character ends no quoted text. -/
theorem not_scans_starter {name : String} (hinert : Inert name.toList)
    (hbad : ∃ c ∈ name.toList, isForbidden c = true) (found : List Lexeme) :
    ¬ Scans (starter name).toList found := by
  rw [scans_starter_iff]
  rintro ⟨more, -, hscans⟩
  have hnone : lexeme? ('"' :: (name.toList ++ '"' :: spelling starterClosing)) = none := by
    rw [lexeme?, readBasic_of_forbidden hinert hbad]
    · rfl
    · intro cs hcs
      cases hname : name.toList with
      | nil =>
        rw [hname] at hbad
        obtain ⟨c, hc, -⟩ := hbad
        cases hc
      | cons c more =>
        rw [hname, List.cons_append] at hcs
        rw [hname] at hinert
        exact (hinert.ne List.mem_cons_self).1 (List.cons.inj hcs).1
  cases hscans with
  | cons hl _ =>
    rw [hnone] at hl
    cases hl

theorem Inert.all_isLiteral_or {cs : List Char} (h : Inert cs) :
    cs.all isLiteral = true ∨ ∃ c ∈ cs, isForbidden c = true := by
  cases hall : cs.all isLiteral with
  | true => exact .inl rfl
  | false =>
    obtain ⟨c, hc, hl⟩ := List.all_eq_false.mp hall
    have hne := h.ne hc
    exact .inr ⟨c, hc, by simpa [isLiteral, hne] using hl⟩

/-! Checking a starter. -/

theorem Manifest.parse_eq_ok_iff {document : String} {m : Manifest} :
    Manifest.parse document = .ok m ↔
      Manifest.read document = .ok m ∧ m.check document = .ok () := by
  unfold Manifest.parse
  cases Manifest.read document with
  | error e => simp
  | ok n =>
    simp only [Except.ok.injEq]
    cases hc : n.check document with
    | error fault =>
      constructor
      · intro h
        cases h
      · rintro ⟨rfl, h⟩
        rw [hc] at h
        cases h
    | ok u =>
      constructor
      · intro h
        cases h
        exact ⟨rfl, hc⟩
      · rintro ⟨rfl, -⟩
        rfl

/-- Whether the check passes does not depend on the document; only the places of faults do. -/
theorem Manifest.check_congr {m : Manifest} {document : String} (other : String)
    (h : m.check document = .ok ()) : m.check other = .ok () := by
  simp only [Manifest.check, bind_eq_ok_iff, checkAll_eq_ok_iff, Scope.checkDotted_eq_ok_iff,
    Scope.checkImport_eq_ok_iff, Scope.checkDistinct_eq_ok_iff, Scope.checkClass_eq_ok_iff,
    Scope.checkFunction_eq_ok_iff] at h ⊢
  exact h

theorem check_starterManifest_iff (name document : String) :
    (starterManifest name).check document = .ok () ↔ IsDotted name := by
  have hrest : (starterManifest "m").check "" = .ok () := by decide +kernel
  simp only [Manifest.check, bind_eq_ok_iff, checkAll_eq_ok_iff, Scope.checkDotted_eq_ok_iff,
    Scope.checkImport_eq_ok_iff, Scope.checkDistinct_eq_ok_iff, Scope.checkClass_eq_ok_iff,
    Scope.checkFunction_eq_ok_iff] at hrest ⊢
  exact ⟨fun h => h.1, fun h => ⟨h, hrest.2⟩⟩

theorem parse_starter_eq_ok_iff {name : String} (hinert : Inert name.toList) {m : Manifest} :
    Manifest.parse (starter name) = .ok m ↔ IsDotted name ∧ m = starterManifest name := by
  rw [Manifest.parse_eq_ok_iff]
  constructor
  · rintro ⟨hread, hcheck⟩
    have hliteral : name.toList.all isLiteral = true := by
      refine hinert.all_isLiteral_or.resolve_right fun hbad => ?_
      obtain ⟨lexemes, hscans, -⟩ := (Record.readDocument_eq_ok_iff placeFree_manifestRecord
        (unmarked_starter name)).mp hread
      exact not_scans_starter hinert hbad lexemes hscans
    rw [read_starter_of_literal hliteral] at hread
    obtain rfl := Except.ok.inj hread
    exact ⟨(check_starterManifest_iff name _).mp hcheck, rfl⟩
  · rintro ⟨hdotted, rfl⟩
    exact ⟨read_starter_of_literal hdotted.all_isLiteral,
      (check_starterManifest_iff name _).mpr hdotted⟩

/-- The comment that a starter file begins with, after its mark. -/
def starterComment : String :=
  " Module description for pyper. Run `pyper render` to generate."

theorem apply_starterRules (name : String) :
    starterRules.apply (starter name) = "#" ++ starterComment ++ "\n\n" ++ starter name := by
  have hne : (starter name).isEmpty = false := by
    rw [← Bool.not_eq_true, String.isEmpty_iff]
    intro he
    have hlist := toList_starter name
    rw [he] at hlist
    cases hlist
  have hheader : starterRules.header = some ("#" ++ starterComment) := rfl
  unfold FileRules.apply
  rw [hheader]
  simp only [hne, Bool.false_eq_true, if_false]

/-- The comment changes nothing that is read. -/
theorem parse_starterFile {name : String} {m : Manifest}
    (h : Manifest.parse (starter name) = .ok m) :
    Manifest.parse (starterRules.apply (starter name)) = .ok m := by
  rw [Manifest.parse_eq_ok_iff] at h ⊢
  refine ⟨?_, Manifest.check_congr _ h.2⟩
  rw [apply_starterRules]
  refine Record.readDocument_comment placeFree_manifestRecord ?_ (unmarked_starter name) h.1
  decide

theorem IsDotted.inert {name : String} (h : IsDotted name) : Inert name.toList := by
  have hliteral := List.all_eq_true.mp h.all_isLiteral
  refine ⟨fun hc => ?_, fun hc => ?_⟩
  · exact absurd (hliteral '"' hc) (by decide)
  · exact absurd (hliteral '\\' hc) (by decide)

end Stencil
