import Stencil.Proofs.BodyLines
import Stencil.Proofs.Docstring

/-! The string that a docstring denotes. Text without backslashes comes back when the literal is
read: quotes are escaped in threes, so what is left of a run of them is too short to end the
literal, and a last one that stands before the closing quotes is escaped as well. -/

namespace Stencil

/-- Puts text before a string that was read, and leaves what follows it. -/
def prepend (xs : List Char) (found : List Char × List Char) : List Char × List Char :=
  (xs ++ found.1, found.2)

/-- The string up to the next three quotes in a row, and what follows these. A quote behind a
backslash belongs to the string, and a backslash does not stand before anything else. -/
def denoted? : List Char → Option (List Char × List Char)
  | '"' :: '"' :: '"' :: rest => some ([], rest)
  | '\\' :: '"' :: rest => (denoted? rest).map (prepend ['"'])
  | c :: rest => if c = '\\' then none else (denoted? rest).map (prepend [c])
  | [] => none

@[simp] theorem map_prepend_nil (found : Option (List Char × List Char)) :
    found.map (prepend []) = found := by
  cases found <;> rfl

theorem map_prepend_prepend (xs ys : List Char) (found : Option (List Char × List Char)) :
    (found.map (prepend ys)).map (prepend xs) = found.map (prepend (xs ++ ys)) := by
  cases found <;> simp [prepend]

theorem denoted?_plain {c : Char} (hq : c ≠ '"') (hb : c ≠ '\\') (rest : List Char) :
    denoted? (c :: rest) = (denoted? rest).map (prepend [c]) := by
  rw [denoted?.eq_3 c rest (fun _ h => absurd h hq) (fun _ h => absurd h hb), if_neg hb]

theorem denoted?_quote {rest : List Char} (h : ∀ more, rest ≠ '"' :: '"' :: more) :
    denoted? ('"' :: rest) = (denoted? rest).map (prepend ['"']) := by
  rw [denoted?.eq_3 '"' rest (fun more _ hm => h more hm) (fun _ hb => absurd hb (by decide)),
    if_neg (by decide)]

section Escaping

variable {tail : List Char} (ht : tail.head? ≠ some '"')

include ht in
theorem escapeTriples_append_ne {xs : List Char} (h : ∀ more, xs ≠ '"' :: '"' :: more)
    (more : List Char) : escapeTriples xs ++ tail ≠ '"' :: '"' :: more := by
  match xs, h with
  | [], _ =>
    intro he
    exact ht (by rw [show tail = '"' :: '"' :: more from he]; rfl)
  | [a], _ =>
    intro he
    have hcons : a :: tail = '"' :: '"' :: more := by simpa [escapeTriples] using he
    exact ht (by rw [(List.cons.inj hcons).2]; rfl)
  | a :: b :: xs, h =>
    intro he
    by_cases ha : a = '"'
    · have hb : b ≠ '"' := fun hb => h xs (by rw [ha, hb])
      have hsplit : escapeTriples ('"' :: b :: xs) = '"' :: b :: escapeTriples xs :=
        escapeTriples_append_cons hb ['"'] xs
      rw [ha, hsplit] at he
      exact hb (List.cons.inj (List.cons.inj he).2).1
    · rw [escapeTriples_cons ha] at he
      exact ha (List.cons.inj he).1

include ht in
/-- Text with its runs of quotes escaped is read as it was, if no quote stands behind it. -/
theorem denoted?_escapeTriples {xs : List Char} (hb : '\\' ∉ xs) :
    denoted? (escapeTriples xs ++ tail) = (denoted? tail).map (prepend xs) := by
  fun_induction escapeTriples xs with
  | case1 rest ih =>
    have hrest := ih fun hm => hb (by simp [hm])
    simp only [List.cons_append, denoted?, hrest, map_prepend_prepend, List.nil_append]
  | case2 c rest hno ih =>
    have hrest := ih fun hm => hb (by simp [hm])
    have hc : c ≠ '\\' := fun hc => hb (by simp [hc])
    by_cases hq : c = '"'
    · subst hq
      have hfew := escapeTriples_append_ne ht fun more hmore => hno more rfl hmore
      rw [List.cons_append, denoted?_quote hfew, hrest, map_prepend_prepend]
      rfl
    · rw [List.cons_append, denoted?_plain hq hc, hrest, map_prepend_prepend]
      rfl
  | case3 => simp

end Escaping

theorem backslashes_eq_zero {cs : List Char} (h : '\\' ∉ cs) : backslashes cs = 0 := by
  rcases List.eq_nil_or_concat cs with rfl | ⟨front, c, rfl⟩
  · rfl
  · rw [List.concat_eq_append] at h ⊢
    rw [backslashes_concat, if_neg]
    rintro rfl
    exact h (by simp)

/-- Text of one line is read as it was, up to the closing quotes. -/
theorem denoted?_oneLine {cs : List Char} (hb : '\\' ∉ cs) (rest : List Char) :
    denoted? (escapeLastQuote (escapeTriples cs) ++ '"' :: '"' :: '"' :: rest) =
      some (cs, rest) := by
  rcases List.eq_nil_or_concat cs with rfl | ⟨front, c, rfl⟩
  · rfl
  rw [List.concat_eq_append] at hb ⊢
  have hfront : '\\' ∉ front := fun hm => hb (by simp [hm])
  by_cases hc : c = '"'
  · subst hc
    rcases escapeTriples_concat_quote front with h | ⟨before, rfl, h⟩
    · -- the last quote gets a backslash of its own
      have hnone : backslashes (escapeTriples front) = 0 := by
        rw [backslashes_escapeTriples, backslashes_eq_zero hfront]
      rw [h, escapeLastQuote_concat_quote, if_pos hnone, List.append_assoc,
        denoted?_escapeTriples (by simp) hfront]
      simp [denoted?, prepend]
    · -- it has one already, as the last of three
      have hsome : backslashes (escapeTriples before ++ ['\\', '"', '\\', '"', '\\']) ≠ 0 := by
        simp [backslashes]
      have hbefore : '\\' ∉ before := fun hm => hfront (by simp [hm])
      rw [h, escapeLastQuote_concat_quote, if_neg hsome, List.append_assoc, List.append_assoc,
        denoted?_escapeTriples (by simp) hbefore]
      simp [denoted?, prepend]
  · have hc' : c ≠ '\\' := fun hc' => hb (by simp [hc'])
    rw [escapeTriples_concat hc, escapeLastQuote_of_ne hc, List.append_assoc,
      denoted?_escapeTriples (by simpa using hc) hfront, List.singleton_append,
      denoted?_plain hc hc']
    simp [denoted?, prepend]

section SeveralLines

theorem getLast?_escapeTriples (cs : List Char) : (escapeTriples cs).getLast? = cs.getLast? := by
  rcases List.eq_nil_or_concat cs with rfl | ⟨front, c, rfl⟩
  · rfl
  rw [List.concat_eq_append]
  by_cases hc : c = '"'
  · rcases escapeTriples_concat_quote front with h | ⟨before, -, h⟩ <;> simp [hc, h]
  · rw [escapeTriples_concat hc, List.getLast?_concat, List.getLast?_concat]

theorem escapeTriples_eq_nil_iff (cs : List Char) : escapeTriples cs = [] ↔ cs = [] := by
  rw [← List.getLast?_eq_none_iff, getLast?_escapeTriples, List.getLast?_eq_none_iff]

/-- Three quotes in a row stand on one line, so lines are escaped one by one. -/
theorem Lined.escapeTriples {cs : List Char} {ls : List (List Char)} (h : Lined cs ls) :
    Lined (escapeTriples cs) (ls.map Stencil.escapeTriples) := by
  induction h with
  | nil => exact .nil
  | @last line hne h =>
    exact .last (mt (escapeTriples_eq_nil_iff line).mp hne)
      (mt (newline_mem_escapeTriples_iff line).mp h)
  | @feed line rest ls h hr _ ih =>
    rw [escapeTriples_append_cons (by decide)]
    exact .feed (mt (newline_mem_escapeTriples_iff line).mp h)
      (by rwa [getLast?_escapeTriples]) ih
  | @returnFeed line rest ls h _ ih =>
    rw [escapeTriples_append_cons (by decide), escapeTriples_cons (by decide)]
    exact .returnFeed (mt (newline_mem_escapeTriples_iff line).mp h) ih

theorem charLines_escapeTriples (cs : List Char) :
    charLines (escapeTriples cs) = (charLines cs).map escapeTriples :=
  (lined_iff.mpr rfl).escapeTriples.charLines_eq

theorem escapeTriples_append_blanks (cs : List Char) {blanks : List Char}
    (h : ∀ c ∈ blanks, isBlank c = true) :
    escapeTriples (cs ++ blanks) = escapeTriples cs ++ blanks := by
  induction blanks generalizing cs with
  | nil => simp
  | cons c blanks ih =>
    rw [List.forall_mem_cons] at h
    have hc : c ≠ '"' := by
      rintro rfl
      exact absurd h.1 (by decide)
    rw [List.append_cons, ih _ h.2, escapeTriples_concat hc, ← List.append_cons]

theorem trimRight_escapeTriples (cs : List Char) :
    trimRight (escapeTriples cs) = escapeTriples (trimRight cs) := by
  obtain ⟨blanks, hblanks, hcs⟩ := exists_append_trimRight cs
  have hlast := getLast?_trimRight cs
  generalize trimRight cs = core at hcs hlast
  rw [hcs, escapeTriples_append_blanks core hblanks, trimRight_append_blanks hblanks,
    trimRight_eq_self (by rwa [getLast?_escapeTriples])]

theorem Neutral.denoted? {s : String} (h : Neutral s) (tail : List Char) :
    denoted? (s.toList ++ tail) = (Stencil.denoted? tail).map (prepend s.toList) := by
  have hchars : ∀ cs : List Char, (∀ c ∈ cs, c ≠ '"' ∧ c ≠ '\\') →
      Stencil.denoted? (cs ++ tail) = (Stencil.denoted? tail).map (prepend cs) := by
    intro cs hcs
    induction cs with
    | nil => simp
    | cons c cs ih =>
      rw [List.forall_mem_cons] at hcs
      rw [List.cons_append, denoted?_plain hcs.1.1 hcs.1.2, ih hcs.2, map_prepend_prepend]
      rfl
  exact hchars s.toList h

variable {unit terminator : String} (hu : Neutral unit) (ht : Neutral terminator)
  (hne : terminator ≠ "") (depth : Nat)

include ht hne in
theorem head?_terminator_append (tail : List Char) :
    (terminator.toList ++ tail).head? ≠ some '"' := by
  cases hs : terminator.toList with
  | nil => exact absurd (by simpa using hs) hne
  | cons c cs => simpa using (ht c (by simp [hs])).1

include hu ht hne in
theorem denoted?_line {l : List Char} (hb : '\\' ∉ l) (tail : List Char) :
    denoted? (((if String.ofList (escapeTriples l) = "" then ""
          else repeated unit depth ++ String.ofList (escapeTriples l))
        ++ terminator).toList ++ tail) =
      (denoted? tail).map (prepend ((if String.ofList l = "" then ""
        else repeated unit depth ++ String.ofList l) ++ terminator).toList) := by
  have hend : denoted? (terminator.toList ++ tail) =
      (denoted? tail).map (prepend terminator.toList) := ht.denoted? tail
  by_cases hl : l = []
  · simp [hl, escapeTriples, hend]
  · have hl' : escapeTriples l ≠ [] := mt (escapeTriples_eq_nil_iff l).mp hl
    have htext := denoted?_escapeTriples (head?_terminator_append ht hne tail) hb
    simp only [String.ofList_eq_empty_iff, hl, hl', if_false, String.toList_append,
      String.toList_ofList, List.append_assoc]
    rw [(neutral_repeated hu depth).denoted?, htext, hend, map_prepend_prepend,
      map_prepend_prepend, List.append_assoc]

include hu ht hne in
/-- Line by line the text is read as it was, with its indentation and its terminators. -/
theorem denoted?_linesText {ls : List (List Char)} (hb : ∀ l ∈ ls, '\\' ∉ l) (tail : List Char) :
    denoted? ((linesText unit terminator depth
        (ls.map fun l => String.ofList (escapeTriples l))).toList ++ tail) =
      (denoted? tail).map
        (prepend (linesText unit terminator depth (ls.map String.ofList)).toList) := by
  induction ls with
  | nil => simp [linesText]
  | cons l ls ih =>
    rw [List.forall_mem_cons] at hb
    rw [List.map_cons, List.map_cons, linesText_cons, linesText_cons, String.toList_append,
      List.append_assoc, denoted?_line hu ht hne depth hb.1, ih hb.2, map_prepend_prepend,
      ← String.toList_append]

theorem not_mem_trimRight {c : Char} {cs : List Char} (h : c ∉ cs) : c ∉ trimRight cs := by
  obtain ⟨after, -, hcs⟩ := exists_append_trimRight cs
  intro hm
  exact h (by rw [hcs]; simp [hm])

include hu ht hne in
theorem denoted?_severalLines {cs : List Char} (hb : '\\' ∉ cs) (rest : List Char) :
    denoted? ((terminator ++ linesText unit terminator depth
        ((charLines (escapeTriples cs)).map fun l => String.ofList (trimRight l))
          ++ repeated unit depth).toList ++ '"' :: '"' :: '"' :: rest) =
      some ((terminator ++ linesText unit terminator depth
        ((charLines cs).map fun l => String.ofList (trimRight l))
          ++ repeated unit depth).toList, rest) := by
  have hlines : (charLines (escapeTriples cs)).map (fun l => String.ofList (trimRight l)) =
      ((charLines cs).map trimRight).map fun l => String.ofList (escapeTriples l) := by
    rw [charLines_escapeTriples, List.map_map, List.map_map]
    apply List.map_congr_left
    intro l _
    simp [trimRight_escapeTriples]
  have hbare : ∀ l ∈ (charLines cs).map trimRight, '\\' ∉ l := by
    intro l hl
    obtain ⟨line, hline, rfl⟩ := List.mem_map.mp hl
    exact not_mem_trimRight fun hm => hb ((lined_iff.mpr rfl).subset line hline hm)
  rw [hlines, String.toList_append, String.toList_append, List.append_assoc, List.append_assoc,
    ht.denoted?, denoted?_linesText hu ht hne depth hbare, (neutral_repeated hu depth).denoted?]
  simp [denoted?, prepend, Function.comp_def]

end SeveralLines

/-- The string that the docstring of a text is to denote: the trimmed text if it is one line, or
else its lines, each indented unless it is empty, with the ends of the lines on which the quotes
stand. -/
def docstringValue (unit terminator : String) (depth : Nat) (s : String) : String :=
  if '\n' ∈ trimBoth s.toList then
    terminator ++ linesText unit terminator depth
      ((charLines (trimBoth s.toList)).map fun l => String.ofList (trimRight l))
      ++ repeated unit depth
  else trim s

/-- What a docstring has between its quotes. -/
def docstringBody (unit terminator : String) (depth : Nat) (s : String) : String :=
  if '\n' ∈ trimBoth s.toList then
    terminator ++ linesText unit terminator depth
      ((charLines (escapeTriples (trimBoth s.toList))).map fun l => String.ofList (trimRight l))
      ++ repeated unit depth
  else String.ofList (escapeLastQuote (escapeTriples (trimBoth s.toList)))

theorem denoted?_docstringBody {unit terminator : String} (hu : Neutral unit)
    (ht : Neutral terminator) (hne : terminator ≠ "") (depth : Nat) {s : String}
    (hb : '\\' ∉ s.toList) (rest : List Char) :
    denoted? ((docstringBody unit terminator depth s).toList ++ '"' :: '"' :: '"' :: rest) =
      some ((docstringValue unit terminator depth s).toList, rest) := by
  have htrim : '\\' ∉ trimBoth s.toList := by
    obtain ⟨before, after, -, -, hs⟩ := exists_append_trimBoth s.toList
    intro hm
    exact hb (by rw [hs]; simp [hm])
  unfold docstringBody docstringValue
  by_cases hn : '\n' ∈ trimBoth s.toList
  · rw [if_pos hn, if_pos hn]
    exact denoted?_severalLines hu ht hne depth htrim rest
  · rw [if_neg hn, if_neg hn, String.toList_ofList, toList_trim]
    exact denoted?_oneLine htrim rest

theorem Element.emit_docstring (s : String) (w : Writer String) :
    ∃ after, (Element.docstring s).emit (Sink.text : Sink String Empty) w = .done after ∧
      after.target = w.target ++ (if w.atLineStart then repeated w.unit w.depth else "")
        ++ tripleQuote ++ (docstringBody w.unit w.terminator w.depth s ++ tripleQuote
        ++ w.terminator) := by
  unfold docstringBody
  by_cases hn : '\n' ∈ trimBoth s.toList
  · rw [docstring_eq_of_newline hn, if_pos hn]
    generalize (charLines (escapeTriples (trimBoth s.toList))).map
      (fun l => String.ofList (trimRight l)) = inner
    have hquote : tripleQuote ≠ "" := by decide
    obtain ⟨after, hemit, htarget⟩ := emit_lines_behind hquote (inner ++ [tripleQuote]) w
    refine ⟨after, hemit, ?_⟩
    rw [htarget, linesText_append, linesText_cons, if_neg hquote]
    simp [linesText, String.append_assoc]
  · rw [docstring_eq_of_no_newline hn, if_neg hn, emit_line]
    refine ⟨_, rfl, ?_⟩
    simp [Writer.withLine, tripleQuote, String.append_assoc]

/-- The literal of a docstring ends before the terminator, and it denotes the text that it was
made from, if there are no backslashes in the text. -/
theorem Element.docstring_denotes {s : String} (hb : '\\' ∉ s.toList) (style : Style)
    (levels : Nat) (target : String) (start : Bool) :
    let w : Writer String :=
      { (Writer.ofStyle style target).indent levels with atLineStart := start }
    ∃ after body, (Element.docstring s).emit (Sink.text : Sink String Empty) w = .done after ∧
      after.target =
        target ++ (if start then repeated w.unit w.depth else "") ++ tripleQuote ++ body ∧
      denoted? body.toList =
        some ((docstringValue w.unit w.terminator w.depth s).toList, w.terminator.toList) := by
  intro w
  have hu : Neutral w.unit := neutral_unit style.indent
  have ht : Neutral w.terminator := neutral_terminator style.lineEnding
  have hne : w.terminator ≠ "" := style.lineEnding.terminator_ne_empty
  obtain ⟨after, hemit, htarget⟩ := Element.emit_docstring s w
  refine ⟨after, _, hemit, htarget, ?_⟩
  rw [String.toList_append, String.toList_append, List.append_assoc]
  exact denoted?_docstringBody hu ht hne w.depth hb w.terminator.toList

theorem docstring_denotes_quote_runs :
    '\\' ∉ "\"\"a\"\"\"\"\"".toList ∧
      (∃ after body, (Element.docstring "\"\"a\"\"\"\"\"").emit (Sink.text : Sink String Empty)
          { Writer.ofStyle {} "x = " with atLineStart := false } = .done after ∧
        after.target = "x = " ++ "" ++ tripleQuote ++ body ∧
        denoted? body.toList = some ("\"\"a\"\"\"\"\"".toList, ['\n'])) ∧
      '\\' ∉ "\"\"\"\"a\n\n  b\"\" \n\"".toList ∧
      ∃ after body,
        (Element.docstring "\"\"\"\"a\n\n  b\"\" \n\"").emit (Sink.text : Sink String Empty)
          ((Writer.ofStyle { indent := .tab, lineEnding := .crlf } "").indent 1) = .done after ∧
        after.target = "" ++ "\t" ++ tripleQuote ++ body ∧
        denoted? body.toList =
          some ("\r\n\t\"\"\"\"a\r\n\r\n\t  b\"\"\r\n\t\"\r\n\t".toList, ['\r', '\n']) :=
  ⟨by decide, Element.docstring_denotes (by decide) {} 0 "x = " false, by decide,
    Element.docstring_denotes (by decide) { indent := .tab, lineEnding := .crlf } 1 "" true⟩

end Stencil
