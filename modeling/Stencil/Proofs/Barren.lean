import Stencil.Proofs.Scanning

/-! Texts from which nothing is read. Empty lines and comments hold no statement, and a line of
code cannot be read as one: it begins with three quotes, with an at sign, or with two words. -/

namespace Stencil

namespace Document

/-- No statement is read from the text; it may be malformed. -/
def Barren (cs : List Char) : Prop :=
  ∀ lexemes, Scans cs lexemes → ∀ fuel statements,
    readStatements fuel (unplaced lexemes) = some statements → statements = []

theorem barren_nil : Barren [] := by
  intro lexemes hscans fuel statements hread
  cases hscans with
  | nil =>
    cases fuel with
    | zero => cases hread
    | succ fuel => exact (Option.some.inj hread).symm
  | cons hl _ => cases hl

theorem barren_of_lexeme?_eq_none {c : Char} {cs : List Char} (h : lexeme? (c :: cs) = none) :
    Barren (c :: cs) := by
  intro lexemes hscans
  cases hscans with
  | cons hl _ =>
    rw [h] at hl
    cases hl

/-- Lexemes between statements. -/
def Lexeme.isIdle : Lexeme → Bool
  | .blank _ => true
  | .newline => true
  | .comment => true
  | _ => false

theorem Barren.cons {cs rest : List Char} {lexeme : Lexeme} {size : Nat} (h : Barren rest)
    (hl : lexeme? cs = some (lexeme, size, rest)) (hidle : lexeme.isIdle = true) : Barren cs := by
  intro lexemes hscans fuel statements hread
  obtain ⟨more, rfl, hmore⟩ := (scans_iff_of_lexeme? hl).mp hscans
  refine h more hmore fuel statements ?_
  rw [← hread]
  cases fuel with
  | zero => rfl
  | succ fuel => cases lexeme <;> first | rfl | cases hidle

theorem Barren.newline {rest : List Char} (h : Barren rest) : Barren ('\n' :: rest) := by
  have hl : lexeme? ('\n' :: rest) = some (.newline, 1, rest) := rfl
  exact h.cons hl rfl

/-- A carriage return must stand before a line feed. -/
theorem lexeme?_return {c : Char} (hc : c ≠ '\n') (cs : List Char) :
    lexeme? ('\r' :: c :: cs) = none := by
  rw [lexeme?]
  · rfl
  all_goals simp [hc]

theorem Barren.returns {rest : List Char} (h : Barren rest) {more : List Char}
    (hfeed : '\n' ∉ more) : Barren ('\r' :: (more ++ '\n' :: rest)) := by
  rcases more with _ | ⟨c, more⟩
  · have hl : lexeme? ('\r' :: '\n' :: rest) = some (.newline, 2, rest) := rfl
    exact h.cons hl rfl
  · have hc : c ≠ '\n' := fun he => hfeed (he ▸ List.mem_cons_self)
    exact barren_of_lexeme?_eq_none (lexeme?_return hc _)

/-- A comment ends at a line feed, or before it at a carriage return. -/
theorem Barren.exists_end {rest : List Char} (h : Barren rest) {text : List Char}
    (hfeed : '\n' ∉ text) :
    ∃ front back, text ++ '\n' :: rest = front ++ back ∧ Barren back ∧
      (front ++ back).takeWhile (fun c => c != '\n' && c != '\r') = front := by
  induction text with
  | nil => exact ⟨[], '\n' :: rest, rfl, h.newline, rfl⟩
  | cons c text ih =>
    have hc : c ≠ '\n' := fun he => hfeed (he ▸ List.mem_cons_self)
    have htext : '\n' ∉ text := List.not_mem_of_not_mem_cons hfeed
    by_cases hr : c = '\r'
    · -- the comment ends here, and what follows is a line end or cannot be read
      subst hr
      exact ⟨[], _, rfl, h.returns htext, rfl⟩
    · obtain ⟨front, back, hsplit, hback, htake⟩ := ih htext
      refine ⟨c :: front, back, ?_, hback, ?_⟩
      · rw [List.cons_append, hsplit, List.cons_append]
      · rw [List.cons_append, List.takeWhile_cons_of_pos (by simp [hc, hr]), htake]

theorem Barren.comment {rest : List Char} (h : Barren rest) {text : List Char}
    (hfeed : '\n' ∉ text) : Barren ('#' :: (text ++ '\n' :: rest)) := by
  obtain ⟨front, back, hsplit, hback, htake⟩ := h.exists_end hfeed
  rw [hsplit]
  by_cases hforbidden : front.any isForbidden = true
  · refine barren_of_lexeme?_eq_none ?_
    rw [lexeme?]
    simp only [htake, hforbidden, if_true]
  · have hl : lexeme? ('#' :: (front ++ back)) = some (.comment, 1 + byteSize front, back) := by
      rw [lexeme?]
      simp only [htake, hforbidden]
      simp
    exact hback.cons hl rfl

/-! Lines of code. -/

theorem barren_of_readStatement {cs : List Char}
    (h : ∀ found, Scans cs found → ∃ lexeme more, found = lexeme :: more ∧
      lexeme.isIdle = false ∧ ∀ fuel, readStatement fuel (unplaced found) = none) : Barren cs := by
  intro found hscans fuel statements hread
  obtain ⟨lexeme, more, rfl, hidle, hnone⟩ := h found hscans
  cases fuel with
  | zero => cases hread
  | succ fuel =>
    have hskip : skipLines (unplaced (lexeme :: more)) = ⟨lexeme, nowhere⟩ :: unplaced more := by
      cases lexeme <;> first | rfl | cases hidle
    have hfirst : readStatement fuel (⟨lexeme, nowhere⟩ :: unplaced more) = none := hnone fuel
    rw [readStatements, hskip] at hread
    simp only [hfirst] at hread
    cases hread

theorem readStatement_of_readKey {lexeme : Lexeme} {more : List Lexeme} {fuel : Nat}
    (hmark : ∀ c, lexeme ≠ .mark c)
    (h : ∀ r, readKey (unplaced (lexeme :: more)) = some r →
      afterMark? '=' (skipBlank r.2.2) = none) :
    readStatement fuel (unplaced (lexeme :: more)) = none := by
  have hbracket : afterMark? '[' (unplaced (lexeme :: more)) = none := by
    refine afterMark?_eq_none fun span rest he => hmark '[' ?_
    exact congrArg Token.lexeme (List.cons.inj he).1
  rw [readStatement_eq, hbracket]
  simp only [Option.map_eq_none_iff]
  cases fuel with
  | zero => rw [readAssign]
  | succ fuel =>
    rw [readAssign_succ]
    cases hkey : readKey (unplaced (lexeme :: more)) with
    | none => rfl
    | some r =>
      have hnone := h r hkey
      obtain ⟨path, key, rest⟩ := r
      simp only at hnone
      simp only [Option.bind_some, hnone]
      rfl

theorem lexeme?_of_isBare {c : Char} (h : isBare c = true) (cs : List Char) :
    ∃ text size rest, lexeme? (c :: cs) = some (.bare (c :: text), size, rest) := by
  obtain ⟨hmark, hspace, hplain⟩ := not_mark_of_isBare h
  rw [lexeme?_other hplain]
  simp only [hmark, hspace, Bool.false_eq_true, if_false, List.takeWhile_cons_of_pos h]
  exact ⟨_, _, _, rfl⟩

inductive BeginsCode : List Char → Prop
  | quotes (rest : List Char) : BeginsCode ('"' :: '"' :: '"' :: rest)
  | at (rest : List Char) : BeginsCode ('@' :: rest)
  | words {word : List Char} (hne : word ≠ []) (hword : word.all isBareKeyChar = true) {c : Char}
      (hc : punctuation.has c = false) (rest : List Char) : BeginsCode (word ++ ' ' :: c :: rest)

theorem BeginsCode.append {cs : List Char} (h : BeginsCode cs) (more : List Char) :
    BeginsCode (cs ++ more) := by
  cases h with
  | quotes rest => exact .quotes (rest ++ more)
  | «at» rest => exact .at (rest ++ more)
  | words hne hword hc rest =>
    rw [List.append_assoc]
    exact .words hne hword hc (rest ++ more)

theorem BeginsCode.ne_nil {cs : List Char} (h : BeginsCode cs) : cs ≠ [] := by
  cases h <;> simp

theorem isBare_of_isBareKeyChar {c : Char} (h : isBareKeyChar c = true) : isBare c = true := by
  have hall : structural.all (fun d => !isBareKeyChar d) = true := by decide
  refine isBare_iff.mpr fun hc => ?_
  simpa [h] using List.all_eq_true.mp hall c hc

theorem barren_of_readKey_eq_none {cs rest : List Char} {lexeme : Lexeme} {size : Nat}
    (hl : lexeme? cs = some (lexeme, size, rest)) (hidle : lexeme.isIdle = false)
    (hmark : ∀ c, lexeme ≠ .mark c)
    (hkey : ∀ more, readKey (unplaced (lexeme :: more)) = none) : Barren cs := by
  refine barren_of_readStatement fun found hscans => ?_
  obtain ⟨more, rfl, -⟩ := (scans_iff_of_lexeme? hl).mp hscans
  refine ⟨lexeme, more, rfl, hidle, fun fuel => readStatement_of_readKey hmark fun r hr => ?_⟩
  rw [hkey] at hr
  cases hr

theorem barren_quotes (rest : List Char) : Barren ('"' :: '"' :: '"' :: rest) := by
  cases hl : lexeme? ('"' :: '"' :: '"' :: rest) with
  | none => exact barren_of_lexeme?_eq_none hl
  | some p =>
    obtain ⟨lexeme, size, after⟩ := p
    have hlong : ∃ text, lexeme = .quoted true text := by
      rw [lexeme?] at hl
      obtain ⟨s, -, hs⟩ := Option.map_eq_some_iff.mp hl
      cases hs
      exact ⟨_, rfl⟩
    obtain ⟨text, rfl⟩ := hlong
    exact barren_of_readKey_eq_none hl rfl (by simp) fun _ => rfl

theorem barren_at (rest : List Char) : Barren ('@' :: rest) := by
  have hat : isBare '@' = true := by decide
  obtain ⟨text, size, after, hl⟩ := lexeme?_of_isBare hat rest
  exact barren_of_readKey_eq_none hl rfl (by simp) fun _ => rfl

theorem scans_words {word : List Char} (hne : word ≠ []) (hword : word.all isBareKeyChar = true)
    {c : Char} (hc : isBare c = true) {rest : List Char} {found : List Lexeme}
    (h : Scans (word ++ ' ' :: c :: rest) found) :
    ∃ text more, found = .bare word :: .blank [' '] :: .bare (c :: text) :: more := by
  have hbare : word.all isBare = true :=
    List.all_eq_true.mpr fun d hd => isBare_of_isBareKeyChar (List.all_eq_true.mp hword d hd)
  have hspelled : [Lexeme.bare word, .blank [' ']].all Lexeme.isSpelled = true := by
    simp [Lexeme.isSpelled, hbare, hne, isSpaceOrTab]
  have hends : ∀ l, [Lexeme.bare word, .blank [' ']].getLast? = some l →
      ∀ d, (c :: rest).head? = some d → l.ends d = true := by
    intro l hl d hd
    obtain rfl : Lexeme.blank [' '] = l := Option.some.inj hl
    obtain rfl : c = d := Option.some.inj hd
    simp [Lexeme.ends, (not_mark_of_isBare hc).2.1]
  have hspelling : word ++ ' ' :: c :: rest =
      spelling [.bare word, .blank [' ']] ++ c :: rest := by
    simp [spelling, Lexeme.spelling]
  rw [hspelling] at h
  obtain ⟨others, rfl, hothers⟩ := (scans_spelling_append_iff hspelled rfl hends).mp h
  obtain ⟨text, size, after, hl⟩ := lexeme?_of_isBare hc rest
  obtain ⟨more, rfl, -⟩ := (scans_iff_of_lexeme? hl).mp hothers
  exact ⟨text, more, rfl⟩

/-- The first word is a key, and the second stands where an equals sign must. -/
theorem barren_words {word : List Char} (hne : word ≠ [])
    (hword : word.all isBareKeyChar = true) {c : Char} (hc : punctuation.has c = false)
    (rest : List Char) : Barren (word ++ ' ' :: c :: rest) := by
  refine barren_of_readStatement fun found hscans => ?_
  obtain ⟨text, more, rfl⟩ := scans_words hne hword (isBare_of_not_punctuation hc) hscans
  refine ⟨_, _, rfl, rfl, fun fuel => readStatement_of_readKey (by simp) fun r hr => ?_⟩
  have hsimple : simpleKey? ⟨.bare word, nowhere⟩ = some ⟨String.ofList word, nowhere⟩ := by
    simp [simpleKey?, hword]
  have hkey : readKey (unplaced (.bare word :: .blank [' '] :: .bare (c :: text) :: more)) =
      some ([], ⟨String.ofList word, nowhere⟩, unplaced (.bare (c :: text) :: more)) := by
    rw [unplaced, List.map_cons, readKey_cons, hsimple]
    rfl
  obtain rfl := Option.some.inj (hkey.symm.trans hr)
  rfl

theorem BeginsCode.barren {cs : List Char} (h : BeginsCode cs) : Barren cs := by
  cases h with
  | quotes rest => exact barren_quotes rest
  | «at» rest => exact barren_at rest
  | words hne hword hc rest => exact barren_words hne hword hc rest

end Document

open Document

theorem Document.BeginsCode.unmarked {cs : List Char} (h : Document.BeginsCode cs) :
    Unmarked cs := by
  cases h with
  | quotes rest => simp [Unmarked]
  | «at» rest => simp [Unmarked]
  | @words word hne hword c hc rest =>
    rcases word with _ | ⟨d, word⟩
    · exact absurd rfl hne
    · rw [List.all_cons, Bool.and_eq_true] at hword
      have hd : d ≠ '\ufeff' := by
        rintro rfl
        exact absurd hword.1 (by decide)
      simpa [Unmarked] using hd

theorem Manifest.read_of_barren {document : String} (hmark : Unmarked document.toList)
    (h : Barren document.toList) (m : Manifest) : Manifest.read document ≠ .ok m := by
  intro hread
  obtain ⟨lexemes, hscans, -, hm⟩ :=
    (Record.readDocument_eq_ok_iff placeFree_manifestRecord hmark).mp hread
  obtain ⟨entries, hentries, htable⟩ := Option.bind_eq_some_iff.mp hm
  obtain ⟨statements, hstatements, hdocument⟩ := Option.bind_eq_some_iff.mp hentries
  obtain rfl := h lexemes hscans _ statements hstatements
  obtain rfl : [] = entries := Option.some.inj hdocument
  cases htable

end Stencil
