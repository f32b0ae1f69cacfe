import Stencil.Proofs.Alone

/-! The body of a declared function, line by line. The lines of a text are told apart by how they
end, and a body that is not blank is laid out as these lines are, but for an empty one at its
end. -/

namespace Stencil

variable {σ ε : Type}

/-- The lines that make up a text. Each ends with a line feed, and a return right before that is
not part of the line; only a last line that is not empty may lack the line feed. -/
inductive Lined : List Char → List (List Char) → Prop
  | nil : Lined [] []
  | last {line : List Char} (hne : line ≠ []) (h : '\n' ∉ line) : Lined line [line]
  | feed {line rest : List Char} {ls : List (List Char)} (h : '\n' ∉ line)
      (hr : line.getLast? ≠ some '\r') (hrest : Lined rest ls) :
      Lined (line ++ '\n' :: rest) (line :: ls)
  | returnFeed {line rest : List Char} {ls : List (List Char)} (h : '\n' ∉ line)
      (hrest : Lined rest ls) : Lined (line ++ '\r' :: '\n' :: rest) (line :: ls)

theorem charLines_append_feed {piece : List Char} (h : '\n' ∉ piece) (rest : List Char) :
    charLines (piece ++ '\n' :: rest) = dropReturn piece :: charLines rest := by
  have hne : splitOn '\n' rest ≠ [] := splitOn_ne_nil rest
  obtain ⟨p, ps, hsplit⟩ := List.exists_cons_of_ne_nil hne
  rw [charLines, charLines, pieces, splitOn_append_cons, splitOn_of_not_mem h, hsplit]
  rfl

namespace Lined

variable {cs : List Char} {ls : List (List Char)}

theorem charLines_eq (h : Lined cs ls) : charLines cs = ls := by
  induction h with
  | nil => rfl
  | @last line hne h =>
    simp [charLines, pieces, splitOn_of_not_mem h, linesOfPieces, hne]
  | @feed line rest ls h hr _ ih =>
    rw [charLines_append_feed h, ih, dropReturn, if_neg hr]
  | @returnFeed line rest ls h _ ih =>
    have hpiece : '\n' ∉ line ++ ['\r'] := by simp [h]
    have hcharLines := charLines_append_feed hpiece rest
    rw [List.append_assoc, ih] at hcharLines
    simpa [dropReturn] using hcharLines

theorem cons (h : Lined cs ls) {c : Char} (hc : c ≠ '\n') : ∃ more, Lined (c :: cs) more := by
  cases h with
  | nil => exact ⟨[[c]], .last (by simp) (by simpa using Ne.symm hc)⟩
  | last _ h => exact ⟨[c :: cs], .last (by simp) (by simp [h, Ne.symm hc])⟩
  | @feed line rest ls h hr hrest =>
    have hline : '\n' ∉ c :: line := by simp [h, Ne.symm hc]
    by_cases hreturn : (c :: line).getLast? = some '\r'
    · -- the line was empty, so the return is its end now
      cases line with
      | nil =>
        obtain rfl : c = '\r' := by simpa using hreturn
        have hempty : Lined ([] ++ '\r' :: '\n' :: rest) ([] :: ls) := .returnFeed (by simp) hrest
        exact ⟨_, hempty⟩
      | cons d line =>
        rw [List.getLast?_cons_cons] at hreturn
        exact absurd hreturn hr
    · exact ⟨(c :: line) :: ls, .feed hline hreturn hrest⟩
  | @returnFeed line rest ls h hrest =>
    have hline : '\n' ∉ c :: line := by simp [h, Ne.symm hc]
    exact ⟨(c :: line) :: ls, .returnFeed hline hrest⟩

theorem exists_lines (cs : List Char) : ∃ ls, Lined cs ls := by
  induction cs with
  | nil => exact ⟨[], .nil⟩
  | cons c cs ih =>
    obtain ⟨ls, h⟩ := ih
    by_cases hc : c = '\n'
    · have hempty : Lined ([] ++ '\n' :: cs) ([] :: ls) := .feed (by simp) (by simp) h
      rw [hc]
      exact ⟨_, hempty⟩
    · exact h.cons hc

theorem exists_line (h : Lined cs ls) {c : Char} (hc : c ∈ cs) (hfeed : c ≠ '\n')
    (hreturn : c ≠ '\r') : ∃ line ∈ ls, c ∈ line := by
  induction h with
  | nil => cases hc
  | @last line => exact ⟨line, by simp, hc⟩
  | @feed line rest ls _ _ _ ih =>
    simp only [List.mem_append, List.mem_cons, hfeed, false_or] at hc
    rcases hc with hc | hc
    · exact ⟨line, by simp, hc⟩
    · obtain ⟨other, hother, hc⟩ := ih hc
      exact ⟨other, by simp [hother], hc⟩
  | @returnFeed line rest ls _ _ ih =>
    simp only [List.mem_append, List.mem_cons, hfeed, hreturn, false_or] at hc
    rcases hc with hc | hc
    · exact ⟨line, by simp, hc⟩
    · obtain ⟨other, hother, hc⟩ := ih hc
      exact ⟨other, by simp [hother], hc⟩

theorem subset (h : Lined cs ls) : ∀ line ∈ ls, line ⊆ cs := by
  induction h with
  | nil => simp
  | last => simp
  | feed _ _ _ ih =>
    refine List.forall_mem_cons.mpr ⟨List.subset_append_left _ _, fun line hl c hc => ?_⟩
    have hrest := ih line hl hc
    simp [hrest]
  | returnFeed _ _ ih =>
    refine List.forall_mem_cons.mpr ⟨List.subset_append_left _ _, fun line hl c hc => ?_⟩
    have hrest := ih line hl hc
    simp [hrest]

end Lined

theorem lined_iff {cs : List Char} {ls : List (List Char)} : Lined cs ls ↔ charLines cs = ls := by
  constructor
  · exact Lined.charLines_eq
  · rintro rfl
    obtain ⟨ls, h⟩ := Lined.exists_lines cs
    rwa [h.charLines_eq]

/-- The lines without an empty one at their end. -/
def keptLines (ls : List String) : List String :=
  if ls.getLast? = some "" then ls.dropLast else ls

theorem keptLines_cons_cons (s t : String) (rest : List String) :
    keptLines (s :: t :: rest) = s :: keptLines (t :: rest) := by
  unfold keptLines
  rw [List.getLast?_cons_cons, List.dropLast_cons_cons]
  split <;> rfl

theorem mem_keptLines {ls : List String} {s : String} (h : s ∈ ls) (hs : s ≠ "") :
    s ∈ keptLines ls := by
  unfold keptLines
  split
  · next hlast =>
    obtain ⟨front, rfl⟩ := List.getLast?_eq_some_iff.mp hlast
    rw [List.dropLast_concat]
    rcases List.mem_append.mp h with h | h
    · exact h
    · exact absurd (List.mem_singleton.mp h) hs
  · exact h

/-- Each line with its terminator, and indented unless it is empty. -/
def linesText (unit terminator : String) (depth : Nat) (ls : List String) : String :=
  String.join (ls.map fun s => (if s = "" then "" else repeated unit depth ++ s) ++ terminator)

theorem linesText_cons (unit terminator : String) (depth : Nat) (s : String) (ls : List String) :
    linesText unit terminator depth (s :: ls) =
      (if s = "" then "" else repeated unit depth ++ s) ++ terminator
        ++ linesText unit terminator depth ls := by
  simp [linesText]

theorem linesText_append (unit terminator : String) (depth : Nat) (xs ys : List String) :
    linesText unit terminator depth (xs ++ ys) =
      linesText unit terminator depth xs ++ linesText unit terminator depth ys := by
  simp [linesText, String.join_append]

/-- The writer once a line is put down, which is indented if it begins with its text. -/
def Writer.withLine (w : Writer String) (s : String) : Writer String :=
  { w with
    atLineStart := true
    written := w.written + s.utf8ByteSize + w.terminator.utf8ByteSize
    target := w.target ++ ((if s = "" then ""
      else (if w.atLineStart then repeated w.unit w.depth else "") ++ s) ++ w.terminator) }

namespace Element

section Running

variable {flush : Writer String → Outcome ε (Writer String)}

theorem run_line (s : String) (w : Writer String) :
    (Element.line s).run Sink.text flush w = .done (w.withLine s) := by
  have hline : (Element.line s).run Sink.text flush w =
      (w.write Sink.text s).andThen (runAll Sink.text flush [.lineFeed]) := rfl
  have hfeed : ∀ v : Writer String, runAll Sink.text flush [.lineFeed] v = .done { v with
      atLineStart := true
      written := v.written + v.terminator.utf8ByteSize
      target := v.target ++ v.terminator } := fun _ => rfl
  rw [hline]
  by_cases hs : s = ""
  · simp [Writer.write, Writer.withLine, hs, hfeed]
  · have hempty : s.isEmpty = false := by simpa using hs
    have hcount : ∀ v : Writer String, v.offerCounted (Sink.text : Sink String ε) s =
        .done { v with written := v.written + s.utf8ByteSize, target := v.target ++ s } :=
      fun _ => rfl
    obtain ⟨unit, terminator, depth, start, written, elements, target⟩ := w
    cases start <;> simp [Writer.write, Writer.withLine, hempty, hs, Writer.openLine,
      Writer.pad_text, hcount, hfeed, String.append_assoc]

/-- From the start of a line, lines are put down as their text. -/
theorem runAll_lines (ls : List String) {w : Writer String} (h : w.atLineStart = true) :
    ∃ count, runAll Sink.text flush (ls.map .line) w = .done { w with
      written := count
      target := w.target ++ linesText w.unit w.terminator w.depth ls } := by
  induction ls generalizing w with
  | nil => exact ⟨w.written, by simp [runAll, linesText]⟩
  | cons s ls ih =>
    have hstart : (w.withLine s).atLineStart = true := rfl
    obtain ⟨count, hrun⟩ := ih hstart
    refine ⟨count, ?_⟩
    rw [List.map_cons, runAll, run_line, Outcome.andThen_done, hrun]
    simp [Writer.withLine, linesText_cons, h, String.append_assoc]

theorem emit_line (s : String) (w : Writer String) :
    (Element.line s).emit (Sink.text : Sink String ε) w = .done (w.withLine s) := by
  obtain ⟨flush, hemit⟩ := (Element.line s).emit_eq_run (Sink.text : Sink String ε) w
  rw [hemit, run_line]

/-- Of lines behind each other, only the first may find text before it. -/
theorem emit_lines_behind {s : String} (hs : s ≠ "") (ls : List String) (w : Writer String) :
    ∃ after, (Element.seq ((s :: ls).map .line)).emit (Sink.text : Sink String ε) w = .done after ∧
      after.target = w.target ++ (if w.atLineStart then repeated w.unit w.depth else "") ++ s
        ++ (w.terminator ++ linesText w.unit w.terminator w.depth ls) := by
  obtain ⟨flush, hemit⟩ :=
    (Element.seq ((s :: ls).map .line)).emit_eq_run (Sink.text : Sink String ε) w
  have hstart : (w.withLine s).atLineStart = true := rfl
  obtain ⟨count, hrun⟩ : ∃ count, runAll Sink.text flush (ls.map .line) (w.withLine s) = _ :=
    runAll_lines ls hstart
  rw [hemit, run, List.map_cons, runAll, run_line, Outcome.andThen_done, hrun]
  exact ⟨_, rfl, by simp [Writer.withLine, hs, String.append_assoc]⟩

end Running

/-- Texts on consecutive lines, once the last is ended, are the lines that are kept. -/
theorem freshLine_lay_stack (ls : List String) (level : Nat) {page : Page}
    (h : page.current = none) :
    ((stack ls).lay level page).freshLine = layAll ((keptLines ls).map .line) level page := by
  induction ls generalizing page with
  | nil => simp [stack, empty, keptLines, lay, layAll, Page.freshLine, h]
  | cons s rest ih =>
    cases rest with
    | nil =>
      by_cases hs : s = ""
      · simp [stack, keptLines, lay, layAll, Page.write, Page.freshLine, h, hs]
      · have hopen := page.isNone_current_write level hs
        simp [stack, keptLines, lay, layAll, line, Page.freshLine, hs, hopen]
    | cons t rest =>
      have hline : ((line s).lay level page).current = none := rfl
      have hrest := ih hline
      rw [keptLines_cons_cons, List.map_cons, layAll, ← hrest]
      rfl

section Texts

variable {unit terminator : String} {depth : Nat}

theorem shown_page_lines (ls : List String) :
    (Element.seq (ls.map .line)).page.shown unit terminator depth =
      linesText unit terminator depth ls := by
  have hclosed : ∀ e ∈ ls.map Element.line, e.Closed := by
    intro e he
    obtain ⟨s, _, rfl⟩ := List.mem_map.mp he
    exact closed_line s
  rw [shown_page_seq unit terminator hclosed, List.map_map, linesText]
  congr 1
  apply List.map_congr_left
  intro s _
  by_cases hs : s = ""
  · rw [hs, if_pos rfl, String.empty_append]
    exact shown_page_blankLine
  · rw [if_neg hs]
    exact shown_page_line hs

/-- A body of lines that are not all dropped has no placeholder. -/
theorem page_body_stack {ls : List String} (h : keptLines ls ≠ []) :
    (Element.body [stack ls] .pass).page = (Element.indented ((keptLines ls).map .line)).page := by
  have hkept : ((stack ls).lay 1 .blank).freshLine =
      layAll ((keptLines ls).map .line) 1 .blank := freshLine_lay_stack ls 1 rfl
  have hshown : layAll [stack ls] 1 .blank ≠ .blank := by
    intro hblank
    have hstack : (stack ls).lay 1 .blank = .blank := hblank
    rw [hstack] at hkept
    exact speaks_lines h 1 .blank hkept.symm
  have hbody : (Element.body [stack ls] .pass).page =
      (if layAll [stack ls] 1 .blank = .blank then Element.pass.lay 1 .blank
        else layAll [stack ls] 1 .blank).freshLine := rfl
  rw [hbody, if_neg hshown]
  exact hkept

end Texts

end Element

namespace FunctionDecl

theorem body_function {f : FunctionDecl} {b : String} (hb : f.body = some b)
    (hvisible : ∃ c ∈ b.toList, isBlank c = false) : f.function.body = [.stack (lines b)] := by
  have hblank : isBlankText b = false := by
    obtain ⟨c, hc, hshown⟩ := hvisible
    rw [isBlankText, List.all_eq_false]
    exact ⟨c, hc, by simp [hshown]⟩
  simp [function, hb, Function.bodyText, hblank, Function.child]

theorem exists_visible_line {b : String} (hvisible : ∃ c ∈ b.toList, isBlank c = false) :
    ∃ line ∈ keptLines (lines b), ∃ c ∈ line.toList, isBlank c = false := by
  obtain ⟨c, hc, hshown⟩ := hvisible
  have hfeed : c ≠ '\n' := by
    rintro rfl
    exact absurd hshown (by decide)
  have hreturn : c ≠ '\r' := by
    rintro rfl
    exact absurd hshown (by decide)
  obtain ⟨line, hline, hc⟩ := (lined_iff.mpr rfl).exists_line hc hfeed hreturn
  have hmem : String.ofList line ∈ lines b := List.mem_map_of_mem hline
  have hne : String.ofList line ≠ "" := by
    intro hempty
    have hnil : line = [] := by simpa using congrArg String.toList hempty
    rw [hnil] at hc
    cases hc
  exact ⟨String.ofList line, mem_keptLines hmem hne, c, by simpa using hc, hshown⟩

theorem shown_page_body {b : String} (hvisible : ∃ c ∈ b.toList, isBlank c = false)
    (unit terminator : String) (depth : Nat) :
    (Element.body [.stack (lines b)] .pass).page.shown unit terminator depth =
      linesText unit terminator (depth + 1) (keptLines (lines b)) := by
  obtain ⟨line, hline, -⟩ := exists_visible_line hvisible
  rw [Element.page_body_stack (List.ne_nil_of_mem hline), Element.shown_page_indented,
    Element.shown_page_lines]

/-- A body that is not blank is reproduced line by line after the header and the docstring, one
level deeper, and the writer is back where it was, at the start of a line. No placeholder is
added, since some line shows a character. -/
theorem body_reproduced {f : FunctionDecl} {b : String} (hb : f.body = some b)
    (hvisible : ∃ c ∈ b.toList, isBlank c = false) {out : Sink σ ε}
    (hout : ∀ s target, ∃ last, out.append s target = .done last) {w : Writer σ}
    (hs : w.atLineStart = true) (ht : w.terminator ≠ "") (hd : w.depth < maxDepth) :
    ∃ ls : List String,
      (∀ others, Lined b.toList others ↔ others = ls.map String.toList) ∧
      (∃ line ∈ keptLines ls, ∃ c ∈ line.toList, isBlank c = false) ∧
      ∃ v, f.function.header.emit out w = .done v ∧ v.atLineStart = true ∧ v.depth = w.depth ∧
        Writes out v (linesText w.unit w.terminator (w.depth + 1) (keptLines ls))
          (f.function.element.emit out w) := by
  have hlines : charLines b.toList = (lines b).map String.toList := by
    simp [lines, Function.comp_def]
  refine ⟨lines b, fun others => ?_, exists_visible_line hvisible, ?_⟩
  · rw [lined_iff, hlines]
    exact eq_comm
  have hbody := body_function hb hvisible
  have hplain : ∀ e ∈ f.function.body, e.Plain := by
    rw [hbody]
    simpa using (Element.flat_stack (lines b)).plain
  have hheight := f.height_element
  obtain ⟨v, hheader, hstart, hdepth, hwrites⟩ :=
    Element.writes_block f.function.plain_header f.function.closed_header hplain hout hs ht
      (by rw [← Function.element, hheight]; exact hd)
  have htext : (Element.body f.function.body .pass).page.shown w.unit w.terminator w.depth =
      linesText w.unit w.terminator (w.depth + 1) (keptLines (lines b)) := by
    rw [hbody, shown_page_body hvisible]
  rw [htext] at hwrites
  exact ⟨v, hheader, hstart, hdepth, hwrites⟩

/-- A return within a line, one more before a line end, an empty line between others, a line of
blanks, and two empty lines at the end. -/
def sampleBody : FunctionDecl where
  name := "f"
  doc := some "Doc."
  body := some "a\rb\r\r\n\r\n  c\n \t\n\r\n\n"

theorem body_reproduced_sample :
    let w : Writer String :=
      { unit := "\t", terminator := "\r\n", depth := 1, written := 3, target := "old" }
    w.depth < maxDepth ∧
      ∃ v, sampleBody.function.header.emit (Sink.text : Sink String Empty) w = .done v ∧
        v.atLineStart = true ∧ v.depth = 1 ∧
        v.target = "old\tdef f():\r\n\t\t\"\"\"Doc.\"\"\"\r\n" ∧
        Writes (Sink.text : Sink String Empty) v
          "\t\ta\rb\r\r\n\r\n\t\t  c\r\n\t\t \t\r\n\r\n"
          (sampleBody.function.element.emit (Sink.text : Sink String Empty) w) := by
  intro w
  have hd : w.depth < maxDepth := by decide
  obtain ⟨ls, hlined, -, v, hheader, hstart, hdepth, hwrites⟩ :=
    body_reproduced (f := sampleBody) rfl ⟨'a', by decide +kernel, by decide⟩
      (Sink.text_accepts Empty) (w := w) rfl (by decide) hd
  have hls : ls = ["a\rb\r", "", "  c", " \t", "", ""] := by
    have hmap := (hlined _).mp (lined_iff.mpr rfl)
    have hinj : ls = (ls.map String.toList).map String.ofList := by simp [Function.comp_def]
    rw [hinj, ← hmap]
    decide +kernel
  have htext : linesText w.unit w.terminator (w.depth + 1) (keptLines ls) =
      "\t\ta\rb\r\r\n\r\n\t\t  c\r\n\t\t \t\r\n\r\n" := by
    rw [hls]
    decide +kernel
  have htarget : v.target = "old\tdef f():\r\n\t\t\"\"\"Doc.\"\"\"\r\n" := by
    have hstate : v.target =
        (sampleBody.function.header.emit (Sink.text : Sink String Empty) w).state.target := by
      rw [hheader]
      rfl
    rw [hstate]
    decide +kernel
  rw [htext] at hwrites
  exact ⟨hd, v, hheader, hstart, hdepth, htarget, hwrites⟩

end FunctionDecl

end Stencil
