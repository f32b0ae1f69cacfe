import Stencil.Proofs.Names
import Stencil.Proofs.Placement
import Stencil.Proofs.Records

/-! From characters to lexemes. `Scans` says which lexemes a text has, without places and without
a bound on their number. What a record is read as depends only on them, so a comment in front of a
document changes nothing. A text spelled from lexemes that cannot run together has just those. -/

namespace Stencil

namespace Document

inductive Scans : List Char → List Lexeme → Prop
  | nil : Scans [] []
  | cons {cs rest : List Char} {lexeme : Lexeme} {size : Nat} {lexemes : List Lexeme} :
      lexeme? cs = some (lexeme, size, rest) → Scans rest lexemes → Scans cs (lexeme :: lexemes)

theorem scans_of_scanFrom {fuel start : Nat} {cs : List Char} {ts : List Token}
    (h : scanFrom fuel start cs = some ts) :
    Scans cs (ts.map Token.lexeme) ∧ ts.length ≤ fuel := by
  induction fuel generalizing start cs ts with
  | zero =>
    cases cs with
    | nil => cases h; exact ⟨.nil, Nat.le_refl 0⟩
    | cons c cs => cases h
  | succ fuel ih =>
    cases cs with
    | nil => cases h; exact ⟨.nil, Nat.zero_le _⟩
    | cons c cs =>
      rw [scanFrom] at h
      · cases hl : lexeme? (c :: cs) with
        | none => rw [hl] at h; cases h
        | some p =>
          obtain ⟨lexeme, size, rest⟩ := p
          rw [hl] at h
          obtain ⟨others, hothers, rfl⟩ := Option.map_eq_some_iff.mp h
          obtain ⟨hscans, hlen⟩ := ih hothers
          exact ⟨.cons hl hscans, Nat.succ_le_succ hlen⟩
      · exact List.cons_ne_nil c cs

theorem scanFrom_of_scans {cs : List Char} {lexemes : List Lexeme} (h : Scans cs lexemes)
    {fuel : Nat} (hfuel : lexemes.length ≤ fuel) (start : Nat) :
    ∃ ts, scanFrom fuel start cs = some ts ∧ ts.map Token.lexeme = lexemes := by
  induction h generalizing fuel start with
  | nil => exact ⟨[], by cases fuel <;> rfl, rfl⟩
  | @cons cs rest lexeme size lexemes hl _ ih =>
    cases fuel with
    | zero => cases hfuel
    | succ fuel =>
      obtain ⟨ts, hts, hlexemes⟩ := ih (Nat.le_of_succ_le_succ hfuel) (start + size)
      refine ⟨⟨lexeme, ⟨start, start + size⟩⟩ :: ts, ?_, by rw [List.map_cons, hlexemes]⟩
      rw [scanFrom]
      · rw [hl]
        simp only [hts, Option.map_some]
      · rintro rfl
        cases hl

def unplaced (lexemes : List Lexeme) : List Token :=
  lexemes.map (⟨·, nowhere⟩)

theorem eraseTokens_eq_unplaced (ts : List Token) :
    eraseTokens ts = unplaced (ts.map Token.lexeme) := by
  rw [eraseTokens, unplaced, List.map_map]
  rfl

/-- The table that lexemes stand for, without places. -/
def table? (lexemes : List Lexeme) : Option Entries :=
  (readStatements (lexemes.length + 2) (unplaced lexemes)).bind document?

/-- No byte order mark comes first, which would be skipped. -/
def Unmarked (cs : List Char) : Prop :=
  cs.head? ≠ some '\ufeff'

theorem tokens?_eq_scanFrom {s : String} (h : Unmarked s.toList) :
    tokens? s = scanFrom s.toList.length 0 s.toList := by
  unfold tokens?
  split
  · next heq => exact absurd (by rw [heq]; rfl) h
  · rfl

theorem parse?_erase {s : String} {lexemes : List Lexeme} (hmark : Unmarked s.toList)
    (h : Scans s.toList lexemes) (hlen : lexemes.length ≤ s.toList.length) :
    (parse? s).map eraseEntries = table? lexemes := by
  obtain ⟨ts, hts, hlexemes⟩ := scanFrom_of_scans h hlen 0
  have hlength : ts.length = lexemes.length := by rw [← hlexemes, List.length_map]
  rw [parse?, tokens?_eq_scanFrom hmark, hts]
  simp only
  rw [table?, ← hlexemes, ← eraseTokens_eq_unplaced, List.length_map, readStatements_erase]
  cases readStatements (ts.length + 2) ts with
  | none => rfl
  | some statements => exact (document?_erase statements).symm

theorem exists_scans_of_parse? {s : String} {entries : Entries} (hmark : Unmarked s.toList)
    (h : parse? s = some entries) :
    ∃ lexemes, Scans s.toList lexemes ∧ lexemes.length ≤ s.toList.length := by
  rw [parse?, tokens?_eq_scanFrom hmark] at h
  cases hts : scanFrom s.toList.length 0 s.toList with
  | none => rw [hts] at h; cases h
  | some ts =>
    obtain ⟨hscans, hlen⟩ := scans_of_scanFrom hts
    exact ⟨_, hscans, by rwa [List.length_map]⟩

theorem scans_iff_of_lexeme? {cs rest : List Char} {lexeme : Lexeme} {size : Nat}
    {found : List Lexeme} (h : lexeme? cs = some (lexeme, size, rest)) :
    Scans cs found ↔ ∃ more, found = lexeme :: more ∧ Scans rest more := by
  constructor
  · intro hscans
    cases hscans with
    | nil => cases h
    | cons hl hrest =>
      obtain ⟨rfl, -, rfl⟩ : _ ∧ _ ∧ _ := by simpa [h] using hl
      exact ⟨_, rfl, hrest⟩
  · rintro ⟨more, rfl, hmore⟩
    exact .cons h hmore

/-! Comments. -/

def isCommented (c : Char) : Bool :=
  c != '\n' && c != '\r' && !isForbidden c

theorem lexeme?_comment {text rest : List Char} (htext : text.all isCommented = true) :
    lexeme? ('#' :: (text ++ '\n' :: rest)) =
      some (.comment, 1 + byteSize text, '\n' :: rest) := by
  have hplain : ∀ c ∈ text, (c ≠ '\n' ∧ c ≠ '\r') ∧ isForbidden c = false := by
    simpa [isCommented] using htext
  have htake : (text ++ '\n' :: rest).takeWhile (fun c => c != '\n' && c != '\r') = text := by
    rw [List.takeWhile_append_of_pos]
    · simp
    · intro c hc
      simp [hplain c hc]
  have hany : text.any isForbidden = false := by
    simpa using fun c hc => (hplain c hc).2
  rw [lexeme?]
  simp only [htake, hany]
  simp

theorem table?_comment {lexemes : List Lexeme} {entries : Entries}
    (h : table? lexemes = some entries) :
    table? (.comment :: .newline :: .newline :: lexemes) = some entries := by
  obtain ⟨statements, hread, hdocument⟩ := Option.bind_eq_some_iff.mp h
  have hmore : readStatements (lexemes.length + 5) (unplaced lexemes) = some statements :=
    readStatements_mono hread (by omega)
  have hskip : readStatements (lexemes.length + 5)
      (unplaced (.comment :: .newline :: .newline :: lexemes)) = some statements := by
    rw [← hmore]
    simp only [readStatements, unplaced, List.map_cons, skipLines]
  rw [table?, List.length_cons, List.length_cons, List.length_cons, hskip]
  exact hdocument

end Document

open Document

theorem Record.toOption_readDocument {ρ : Type} {record : Record ρ} (h : record.PlaceFree)
    (start : ρ) (s : String) :
    (record.readDocument start s).toOption =
      ((parse? s).map eraseEntries).bind fun entries =>
        (record.readTable nowhere entries start).toOption := by
  unfold readDocument
  cases parse? s with
  | none => rfl
  | some entries =>
    simp only [Option.map_some, Option.bind_some]
    rw [toOption_readTable h nowhere ⟨0, 0⟩]
    cases record.readTable ⟨0, 0⟩ entries start <;> rfl

theorem toOption_eq_some_iff {ε α : Type} {x : Except ε α} {a : α} :
    x.toOption = some a ↔ x = .ok a := by
  cases x <;> simp [Except.toOption]

namespace Record

variable {ρ : Type} {record : Record ρ} {start r : ρ}

def ofLexemes? (record : Record ρ) (start : ρ) (lexemes : List Lexeme) : Option ρ :=
  (table? lexemes).bind fun entries => (record.readTable nowhere entries start).toOption

/-- A document is read as the record that its lexemes stand for. -/
theorem readDocument_eq_ok_iff (h : record.PlaceFree) {s : String} (hmark : Unmarked s.toList) :
    record.readDocument start s = .ok r ↔ ∃ lexemes, Scans s.toList lexemes ∧
      lexemes.length ≤ s.toList.length ∧ record.ofLexemes? start lexemes = some r := by
  rw [← toOption_eq_some_iff, toOption_readDocument h]
  constructor
  · intro hs
    obtain ⟨entries, hentries, -⟩ := Option.bind_eq_some_iff.mp hs
    obtain ⟨places, hparse, -⟩ := Option.map_eq_some_iff.mp hentries
    obtain ⟨lexemes, hscans, hlen⟩ := exists_scans_of_parse? hmark hparse
    rw [parse?_erase hmark hscans hlen] at hs
    exact ⟨lexemes, hscans, hlen, hs⟩
  · rintro ⟨lexemes, hscans, hlen, hs⟩
    rw [parse?_erase hmark hscans hlen]
    exact hs

/-- A comment and an empty line in front of a document change nothing. -/
theorem readDocument_comment (h : record.PlaceFree) {comment s : String}
    (hcomment : comment.toList.all isCommented = true) (hmark : Unmarked s.toList)
    (hs : record.readDocument start s = .ok r) :
    record.readDocument start ("#" ++ comment ++ "\n\n" ++ s) = .ok r := by
  obtain ⟨lexemes, hscans, hlen, hread⟩ := (readDocument_eq_ok_iff h hmark).mp hs
  obtain ⟨entries, hentries, htable⟩ := Option.bind_eq_some_iff.mp hread
  have hlist : ("#" ++ comment ++ "\n\n" ++ s).toList =
      '#' :: (comment.toList ++ '\n' :: '\n' :: s.toList) := by
    simp [String.toList_append]
  have hscans' : Scans ("#" ++ comment ++ "\n\n" ++ s).toList
      (.comment :: .newline :: .newline :: lexemes) := by
    rw [hlist]
    exact .cons (lexeme?_comment hcomment) (.cons rfl (.cons rfl hscans))
  have hlen' : (Lexeme.comment :: .newline :: .newline :: lexemes).length ≤
      ("#" ++ comment ++ "\n\n" ++ s).toList.length := by
    rw [hlist]
    simp only [List.length_cons, List.length_append]
    omega
  have hmark' : Unmarked ("#" ++ comment ++ "\n\n" ++ s).toList := by
    rw [hlist]
    simp [Unmarked]
  refine (readDocument_eq_ok_iff h hmark').mpr ⟨_, hscans', hlen', ?_⟩
  rw [ofLexemes?, table?_comment hentries]
  exact htable

end Record

namespace Document

/-! Spelling. -/

/-- The characters of a lexeme. A comment and quoted text of several lines have no one spelling. -/
def Lexeme.spelling : Lexeme → List Char
  | .blank text => text
  | .newline => ['\n']
  | .comment => ['#']
  | .mark c => [c]
  | .bare text => text
  | .quoted _ text => '"' :: (text.toList ++ ['"'])

def isLiteral (c : Char) : Bool :=
  c != '"' && c != '\\' && !isForbidden c

/-- The spelling is read as the lexeme. -/
def Lexeme.isSpelled : Lexeme → Bool
  | .blank text => !text.isEmpty && text.all isSpaceOrTab
  | .newline => true
  | .comment => false
  | .mark c => isMark c
  | .bare text => !text.isEmpty && text.all isBare
  | .quoted long text => !long && text.toList.all isLiteral

/-- Two lexemes that can follow each other and stay two. -/
def Lexeme.parts : Lexeme → Lexeme → Bool
  | .blank _, .blank _ => false
  | .bare _, .bare _ => false
  | .quoted _ _, .quoted _ _ => false
  | _, _ => true

def spelling (lexemes : List Lexeme) : List Char :=
  lexemes.flatMap Lexeme.spelling

theorem spelling_cons (lexeme : Lexeme) (lexemes : List Lexeme) :
    spelling (lexeme :: lexemes) = lexeme.spelling ++ spelling lexemes :=
  List.flatMap_cons

theorem spelling_append (front back : List Lexeme) :
    spelling (front ++ back) = spelling front ++ spelling back :=
  List.flatMap_append

/-- The character may follow the lexeme without becoming a part of it. -/
def Lexeme.ends : Lexeme → Char → Bool
  | .blank _, c => !isSpaceOrTab c
  | .bare _, c => !isBare c
  | .quoted _ _, c => c != '"'
  | _, _ => true

/-- The characters that are no part of a run: marks, blanks, and those that begin a line end, a
comment or quoted text. -/
def structural : List Char :=
  ['.', ',', '=', '[', ']', '\x7b', '\x7d', ' ', '\t', '\n', '\r', '#', '"', '\'']

theorem isBare_iff {c : Char} : isBare c = true ↔ c ∉ structural := by
  simp [isBare, isMark, isSpaceOrTab, structural, and_assoc]

theorem not_run_of_isMark {c : Char} (h : isMark c = true) :
    isSpaceOrTab c = false ∧ isBare c = false ∧ c ∉ ['"', '\'', '\n', '\r', '#'] := by
  simp only [isMark, Bool.or_eq_true, decide_eq_true_eq] at h
  rcases h with (((((rfl | rfl) | rfl) | rfl) | rfl) | rfl) | rfl <;> decide

theorem not_bare_of_isSpaceOrTab {c : Char} (h : isSpaceOrTab c = true) :
    isMark c = false ∧ isBare c = false ∧ c ∉ ['"', '\'', '\n', '\r', '#'] := by
  simp only [isSpaceOrTab, Bool.or_eq_true, decide_eq_true_eq] at h
  rcases h with rfl | rfl <;> decide

theorem not_mark_of_isBare {c : Char} (h : isBare c = true) :
    isMark c = false ∧ isSpaceOrTab c = false ∧ c ∉ ['"', '\'', '\n', '\r', '#'] := by
  rw [isBare_iff] at h
  simp only [structural, List.mem_cons, List.not_mem_nil, or_false, not_or] at h
  simp [isMark, isSpaceOrTab, h]

theorem lexeme?_other {c : Char} (h : c ∉ ['"', '\'', '\n', '\r', '#']) (cs : List Char) :
    lexeme? (c :: cs) =
      if isMark c then some (.mark c, c.utf8Size, cs)
      else
        let text := (c :: cs).takeWhile (if isSpaceOrTab c then isSpaceOrTab else isBare)
        if text.isEmpty then none
        else some (if isSpaceOrTab c then .blank text else .bare text,
          byteSize text, (c :: cs).drop text.length) := by
  simp only [List.mem_cons, List.not_mem_nil, or_false, not_or] at h
  rw [lexeme?] <;> simp_all

theorem takeWhile_run {p : Char → Bool} {text rest : List Char} (htext : text.all p = true)
    (hrest : ∀ c, rest.head? = some c → p c = false) : (text ++ rest).takeWhile p = text := by
  rw [List.takeWhile_append_of_pos (by simpa using htext)]
  cases rest with
  | nil => simp
  | cons c rest => simp [hrest c rfl]

theorem lexeme?_run {p : Char → Bool} {c : Char} {text rest : List Char}
    (hc : c ∉ ['"', '\'', '\n', '\r', '#']) (hmark : isMark c = false)
    (hp : p = if isSpaceOrTab c then isSpaceOrTab else isBare) (htext : (c :: text).all p = true)
    (hrest : ∀ d, rest.head? = some d → p d = false) :
    lexeme? (c :: text ++ rest) =
      some (if isSpaceOrTab c then .blank (c :: text) else .bare (c :: text),
        byteSize (c :: text), rest) := by
  have htake : (c :: (text ++ rest)).takeWhile p = c :: text := takeWhile_run htext hrest
  rw [List.cons_append, lexeme?_other hc, ← hp, htake, hmark]
  simp

theorem readBasic_plain {text : List Char} (htext : text.all isLiteral = true) (rest : List Char) :
    ∃ size, readBasic .plain (text ++ '"' :: rest) = some ⟨text, size, rest⟩ := by
  induction text with
  | nil => exact ⟨1, rfl⟩
  | cons c text ih =>
    rw [List.all_cons, Bool.and_eq_true] at htext
    obtain ⟨size, hread⟩ := ih htext.2
    have hc : (c ≠ '"' ∧ c ≠ '\\') ∧ isForbidden c = false := by
      simpa [isLiteral] using htext.1
    refine ⟨c.utf8Size + size, ?_⟩
    rw [List.cons_append, readBasic, hread]
    simp [hc, Scanned.over]

theorem lexeme?_quoted {text : String} (htext : text.toList.all isLiteral = true)
    {rest : List Char} (hrest : ∀ c, rest.head? = some c → c ≠ '"') :
    ∃ size, lexeme? ('"' :: (text.toList ++ '"' :: rest)) =
      some (.quoted false text, size, rest) := by
  obtain ⟨size, hread⟩ := readBasic_plain htext rest
  refine ⟨1 + size, ?_⟩
  rw [lexeme?, hread]
  · simp [quotedLexeme]
  · -- no second quote follows: the text has none, and what is after it starts with none
    intro cs hcs
    cases ht : text.toList with
    | nil =>
      rw [ht, List.nil_append] at hcs
      exact hrest '"' (by rw [(List.cons.inj hcs).2]; rfl) rfl
    | cons c more =>
      rw [ht, List.cons_append] at hcs
      rw [ht, (List.cons.inj hcs).1] at htext
      simp [isLiteral] at htext

theorem lexeme?_spelling {lexeme : Lexeme} (h : lexeme.isSpelled = true) {rest : List Char}
    (hrest : ∀ c, rest.head? = some c → lexeme.ends c = true) :
    ∃ size, lexeme? (lexeme.spelling ++ rest) = some (lexeme, size, rest) := by
  cases lexeme with
  | newline => exact ⟨1, rfl⟩
  | comment => cases h
  | mark c =>
    have hmark : isMark c = true := h
    refine ⟨c.utf8Size, ?_⟩
    rw [Lexeme.spelling, List.singleton_append, lexeme?_other (not_run_of_isMark h).2.2, hmark]
    rfl
  | blank text =>
    rcases text with _ | ⟨c, text⟩
    · cases h
    · have hall : (c :: text).all isSpaceOrTab = true := h
      have hspace : isSpaceOrTab c = true := List.all_eq_true.mp hall c List.mem_cons_self
      obtain ⟨hmark, -, hplain⟩ := not_bare_of_isSpaceOrTab hspace
      have hrun := lexeme?_run hplain hmark (if_pos hspace).symm hall fun d hd => by
        simpa [Lexeme.ends] using hrest d hd
      rw [if_pos hspace] at hrun
      exact ⟨_, hrun⟩
  | bare text =>
    rcases text with _ | ⟨c, text⟩
    · cases h
    · have hall : (c :: text).all isBare = true := h
      have hbare : isBare c = true := List.all_eq_true.mp hall c List.mem_cons_self
      obtain ⟨hmark, hspace, hplain⟩ := not_mark_of_isBare hbare
      have hp : isBare = if isSpaceOrTab c then isSpaceOrTab else isBare := by simp [hspace]
      have hrun := lexeme?_run hplain hmark hp hall fun d hd => by
        simpa [Lexeme.ends] using hrest d hd
      simp only [hspace] at hrun
      exact ⟨_, hrun⟩
  | quoted long text =>
    simp only [Lexeme.isSpelled, Bool.and_eq_true, Bool.not_eq_true'] at h
    obtain ⟨rfl, htext⟩ := h
    have hquoted := lexeme?_quoted htext fun c hc => by
      simpa [Lexeme.ends] using hrest c hc
    simpa [Lexeme.spelling] using hquoted

theorem ends_of_parts {lexeme next : Lexeme} (hparts : lexeme.parts next = true)
    (hnext : next.isSpelled = true) (rest : List Char) :
    ∀ c, (next.spelling ++ rest).head? = some c → lexeme.ends c = true := by
  intro c hc
  cases next with
  | newline =>
    obtain rfl : '\n' = c := Option.some.inj hc
    cases lexeme <;> rfl
  | comment => cases hnext
  | mark d =>
    obtain rfl : d = c := Option.some.inj hc
    obtain ⟨hspace, hbare, hplain⟩ := not_run_of_isMark hnext
    have hquote : d ≠ '"' := List.ne_of_not_mem_cons hplain
    cases lexeme <;> simp [Lexeme.ends, hspace, hbare, hquote]
  | blank text =>
    rcases text with _ | ⟨d, text⟩
    · cases hnext
    · obtain rfl : d = c := Option.some.inj hc
      obtain ⟨-, hbare, hplain⟩ :=
        not_bare_of_isSpaceOrTab (List.all_eq_true.mp hnext d List.mem_cons_self)
      have hquote : d ≠ '"' := List.ne_of_not_mem_cons hplain
      cases lexeme with
      | blank _ => cases hparts
      | _ => simp [Lexeme.ends, hbare, hquote]
  | bare text =>
    rcases text with _ | ⟨d, text⟩
    · cases hnext
    · obtain rfl : d = c := Option.some.inj hc
      obtain ⟨-, hspace, hplain⟩ :=
        not_mark_of_isBare (List.all_eq_true.mp hnext d List.mem_cons_self)
      have hquote : d ≠ '"' := List.ne_of_not_mem_cons hplain
      cases lexeme with
      | bare _ => cases hparts
      | _ => simp [Lexeme.ends, hspace, hquote]
  | quoted long text =>
    obtain rfl : '"' = c := Option.some.inj hc
    cases lexeme with
    | quoted _ _ => cases hparts
    | _ => rfl

/-- No two neighbours run together. -/
def isSpread : List Lexeme → Bool
  | l :: n :: ls => l.parts n && isSpread (n :: ls)
  | _ => true

/-- A spelling is read as its lexemes, and what follows it is read by itself, unless it runs into
the last of them. -/
theorem scans_spelling_append_iff {lexemes found : List Lexeme} {rest : List Char}
    (hspelled : lexemes.all Lexeme.isSpelled = true) (hspread : isSpread lexemes = true)
    (hlast : ∀ l, lexemes.getLast? = some l → ∀ c, rest.head? = some c → l.ends c = true) :
    Scans (spelling lexemes ++ rest) found ↔ ∃ more, found = lexemes ++ more ∧ Scans rest more := by
  induction lexemes generalizing found with
  | nil => simp [spelling]
  | cons lexeme lexemes ih =>
    rw [List.all_cons, Bool.and_eq_true] at hspelled
    have hends : ∀ c, (spelling lexemes ++ rest).head? = some c → lexeme.ends c = true := by
      rcases lexemes with _ | ⟨next, lexemes⟩
      · exact hlast lexeme rfl
      · rw [isSpread, Bool.and_eq_true] at hspread
        rw [List.all_cons, Bool.and_eq_true] at hspelled
        rw [spelling_cons, List.append_assoc]
        exact ends_of_parts hspread.1 hspelled.2.1 _
    have hrest : ∀ {found}, Scans (spelling lexemes ++ rest) found ↔
        ∃ more, found = lexemes ++ more ∧ Scans rest more := by
      rcases lexemes with _ | ⟨next, lexemes⟩
      · simp [spelling]
      · rw [isSpread, Bool.and_eq_true] at hspread
        exact ih hspelled.2 hspread.2 fun l hl => hlast l (by rwa [List.getLast?_cons_cons])
    obtain ⟨size, hlexeme⟩ := lexeme?_spelling hspelled.1 hends
    rw [spelling_cons, List.append_assoc, scans_iff_of_lexeme? hlexeme]
    constructor
    · rintro ⟨others, rfl, hothers⟩
      obtain ⟨more, rfl, hmore⟩ := hrest.mp hothers
      exact ⟨more, rfl, hmore⟩
    · rintro ⟨more, rfl, hmore⟩
      exact ⟨lexemes ++ more, rfl, hrest.mpr ⟨more, rfl, hmore⟩⟩

theorem length_le_length_spelling {lexemes : List Lexeme}
    (hspelled : lexemes.all Lexeme.isSpelled = true) :
    lexemes.length ≤ (spelling lexemes).length := by
  induction lexemes with
  | nil => exact Nat.le_refl 0
  | cons lexeme lexemes ih =>
    rw [List.all_cons, Bool.and_eq_true] at hspelled
    have hrest := ih hspelled.2
    have hone : 1 ≤ lexeme.spelling.length := by
      cases lexeme with
      | blank text => cases text <;> simp_all [Lexeme.isSpelled, Lexeme.spelling]
      | bare text => cases text <;> simp_all [Lexeme.isSpelled, Lexeme.spelling]
      | _ => simp [Lexeme.spelling]
    rw [spelling_cons, List.length_append, List.length_cons]
    omega

end Document

/-! Names. -/

/-- The ASCII characters that no name has. -/
def punctuation : CodePoints where
  ranges := [(0, 47), (58, 64), (91, 94), (96, 96), (123, 127)]

theorem continuesName_of_punctuation {c : Char} (h : punctuation.has c = true) :
    continuesName c = false := by
  have ha : isAlphabetic c = false := CodePoints.has_eq_false (by decide +kernel) h
  have hn : isNumeric c = false := CodePoints.has_eq_false (by decide +kernel) h
  have hu : c ≠ '_' := by
    rintro rfl
    exact absurd h (by decide)
  simp [continuesName, ha, hn, hu]

theorem IsName.not_punctuation {name : String} (h : IsName name) {c : Char}
    (hc : c ∈ name.toList) : punctuation.has c = false := by
  rw [← Bool.not_eq_true]
  exact fun hp => h.not_mem (continuesName_of_punctuation hp) hc

theorem isBare_of_not_punctuation {c : Char} (h : punctuation.has c = false) :
    isBare c = true := by
  have hall : structural.all (punctuation.has ·) = true := by decide
  refine isBare_iff.mpr fun hc => ?_
  rw [List.all_eq_true.mp hall c hc] at h
  cases h

theorem isLiteral_of_not_punctuation {c : Char} (h : punctuation.has c = false) :
    isLiteral c = true := by
  have hquote : c ≠ '"' := by rintro rfl; cases h
  have hbackslash : c ≠ '\\' := by rintro rfl; cases h
  have hforbidden : isForbidden c = false := by
    simp only [punctuation, CodePoints.has, List.any_cons, List.any_nil, Bool.or_eq_false_iff,
      Bool.and_eq_false_iff, decide_eq_false_iff_not] at h
    simp only [isForbidden, Bool.or_eq_false_iff, Bool.and_eq_false_iff, decide_eq_false_iff_not,
      beq_eq_false_iff_ne]
    omega
  simp [isLiteral, hquote, hbackslash, hforbidden]

theorem IsDotted.all_isLiteral {name : String} (h : IsDotted name) :
    name.toList.all isLiteral = true := by
  rw [List.all_eq_true]
  intro c hc
  have hpart : c = '.' ∨ ∃ part ∈ splitOn '.' name.toList, c ∈ part := exists_mem_splitOn hc
  rcases hpart with rfl | ⟨part, hp, hm⟩
  · rfl
  · have hname : IsName (String.ofList part) := (isDotted_iff name).mp h part hp
    exact isLiteral_of_not_punctuation (hname.not_punctuation (by rwa [String.toList_ofList]))

end Stencil
