import Stencil.Proofs.BodyLines
import Stencil.Proofs.Refused
import Stencil.Proofs.Spacing

/-! Comments, and the lines that a reader of the code sees in them. Text is cut into lines at line
feeds before it is marked, while the reader also ends a line at a carriage return. So text leaves
its comment behind a carriage return, and nowhere else. -/

namespace Stencil

def extendFirst (c : Char) : List (List Char) → List (List Char)
  | [] => [[c]]
  | l :: ls => (c :: l) :: ls

/-- The lines that a reader of code sees. They end at a line feed, at a carriage return, or at a
line feed behind a carriage return. -/
def physicalLines : List Char → List (List Char)
  | '\r' :: '\n' :: rest => [] :: physicalLines rest
  | c :: rest =>
    if c = '\n' ∨ c = '\r' then [] :: physicalLines rest else extendFirst c (physicalLines rest)
  | [] => []

theorem physicalLines_return {rest : List Char} (h : rest.head? ≠ some '\n') :
    physicalLines ('\r' :: rest) = [] :: physicalLines rest := by
  have hnot : ∀ more, '\r' = '\r' → rest = '\n' :: more → False := by
    rintro more - rfl
    exact h rfl
  rw [physicalLines.eq_2 _ _ hnot, if_pos (.inr rfl)]

theorem physicalLines_plain {c : Char} (hn : c ≠ '\n') (hr : c ≠ '\r') (rest : List Char) :
    physicalLines (c :: rest) = extendFirst c (physicalLines rest) := by
  rw [physicalLines.eq_2 _ _ (fun _ h => absurd h hr), if_neg (not_or.mpr ⟨hn, hr⟩)]

theorem extendFirst_append {ls : List (List Char)} (h : ls ≠ []) (c : Char)
    (more : List (List Char)) : extendFirst c (ls ++ more) = extendFirst c ls ++ more := by
  cases ls with
  | nil => exact absurd rfl h
  | cons l ls => rfl

theorem splitOn_cons_of_ne {separator c : Char} (h : c ≠ separator) (cs : List Char) :
    splitOn separator (c :: cs) = extendFirst c (splitOn separator cs) := by
  rw [splitOn, if_neg h]
  cases splitOn separator cs <;> rfl

theorem exists_splitOn_of_append {separator : Char} {front : List Char} (h : separator ∉ front)
    (cs : List Char) : ∃ first,
      splitOn separator (front ++ cs) = (front ++ first) :: (splitOn separator cs).tail := by
  induction front with
  | nil =>
    have hne : splitOn separator cs ≠ [] := splitOn_ne_nil cs
    obtain ⟨first, others, hs⟩ := List.exists_cons_of_ne_nil hne
    exact ⟨first, by simp [hs]⟩
  | cons c front ih =>
    have hc : c ≠ separator := (List.ne_of_not_mem_cons h).symm
    obtain ⟨first, hs⟩ := ih (List.not_mem_of_not_mem_cons h)
    refine ⟨first, ?_⟩
    rw [List.cons_append, splitOn_cons_of_ne hc, hs]
    rfl

theorem dropReturn_concat (cs : List Char) : dropReturn (cs ++ ['\r']) = cs := by
  simp [dropReturn]

theorem dropReturn_append {front : List Char} (h : '\r' ∉ front) (cs : List Char) :
    dropReturn (front ++ cs) = front ++ dropReturn cs := by
  rcases List.eq_nil_or_concat cs with rfl | ⟨cs, c, rfl⟩
  · have hlast : front.getLast? ≠ some '\r' := fun hl => h (List.mem_of_getLast? hl)
    simp [dropReturn, hlast]
  · rw [List.concat_eq_append]
    by_cases hc : c = '\r'
    · rw [hc, ← List.append_assoc, dropReturn_concat, dropReturn_concat]
    · simp [dropReturn, hc, ← List.append_assoc]

/-- Up to a line feed, lines end at carriage returns, but for one right before it. -/
theorem physicalLines_append_feed {cs : List Char} (h : '\n' ∉ cs) (rest : List Char) :
    physicalLines (cs ++ '\n' :: rest) = splitOn '\r' (dropReturn cs) ++ physicalLines rest := by
  induction cs with
  | nil => rfl
  | cons c cs ih =>
    have hc : c ≠ '\n' := (List.ne_of_not_mem_cons h).symm
    have hcs : '\n' ∉ cs := List.not_mem_of_not_mem_cons h
    by_cases hr : c = '\r'
    · subst hr
      cases cs with
      | nil => rfl
      | cons d cs =>
        have hd : (d :: cs ++ '\n' :: rest).head? ≠ some '\n' := by
          simpa using (List.ne_of_not_mem_cons hcs).symm
        have hdrop : dropReturn ('\r' :: d :: cs) = '\r' :: dropReturn (d :: cs) := by
          simp only [dropReturn, List.getLast?_cons_cons]
          split <;> rfl
        rw [List.cons_append, physicalLines_return hd, ih hcs, hdrop, splitOn, if_pos rfl]
        rfl
    · have hdrop : dropReturn (c :: cs) = c :: dropReturn cs :=
        dropReturn_append (by simpa using Ne.symm hr : '\r' ∉ [c]) cs
      rw [List.cons_append, physicalLines_plain hc hr, ih hcs, hdrop,
        splitOn_cons_of_ne hr, extendFirst_append (splitOn_ne_nil _)]

def IsCommentLine (indentation line : List Char) : Prop :=
  ∃ rest, line = indentation ++ '#' :: rest

/-- A line of text as it is written in a comment. -/
def marked (line : List Char) : List Char :=
  if line = [] then ['#'] else '#' :: ' ' :: line

/-- What stands behind the carriage returns of a line. At its end, one is taken for a part of the
terminator if that is a line feed alone. -/
def strayParts (terminator : String) (line : List Char) : List (List Char) :=
  (splitOn '\r' (if terminator = "\n" then dropReturn line else line)).tail

/-- Behind every carriage return the text goes on with a comment of its own. -/
def Contained (indentation terminator s : String) : Prop :=
  ∀ line ∈ charLines s.toList, ∀ part ∈ strayParts terminator line,
    IsCommentLine indentation.toList part

theorem exists_marked (line : List Char) :
    ∃ marker, marked line = '#' :: marker ++ line ∧ '\r' ∉ marker ∧ '\n' ∉ marker := by
  by_cases h : line = []
  · exact ⟨[], by simp [marked, h]⟩
  · exact ⟨[' '], by simp [marked, h]⟩

/-- Of the lines that a reader sees in a line of a comment, only the first is marked for sure. -/
theorem exists_physicalLines_marked {indentation line : List Char} (hr : '\r' ∉ indentation)
    (hn : '\n' ∉ indentation) (hline : '\n' ∉ line) (ending : LineEnding) :
    ∃ first, IsCommentLine indentation first ∧ ∀ rest,
      physicalLines (indentation ++ marked line ++ ending.terminator.toList ++ rest) =
        first :: strayParts ending.terminator line ++ physicalLines rest := by
  obtain ⟨marker, hmarked, hmr, hmn⟩ := exists_marked line
  obtain ⟨front, hfront⟩ : ∃ front, front = indentation ++ '#' :: marker := ⟨_, rfl⟩
  have hfr : '\r' ∉ front := by simp [hfront, hr, hmr]
  have hfn : '\n' ∉ front := by simp [hfront, hn, hmn]
  have htext : indentation ++ marked line = front ++ line := by simp [hmarked, hfront]
  have hcomment : ∀ first, IsCommentLine indentation (front ++ first) := by
    intro first
    exact ⟨marker ++ first, by simp [hfront]⟩
  rcases ending.toList_terminator with ht | ht
  · have hfeed : ending.terminator = "\n" := String.toList_inj.mp ht
    obtain ⟨first, hs⟩ := exists_splitOn_of_append hfr (dropReturn line)
    refine ⟨front ++ first, hcomment first, fun rest => ?_⟩
    have hnone : '\n' ∉ front ++ line := by simp [hfn, hline]
    rw [htext, ht, List.append_assoc, List.singleton_append, physicalLines_append_feed hnone,
      dropReturn_append hfr, hs, strayParts, if_pos hfeed]
  · have hreturn : ending.terminator ≠ "\n" := by
      intro h
      rw [h] at ht
      exact absurd ht (by decide)
    obtain ⟨first, hs⟩ := exists_splitOn_of_append hfr line
    refine ⟨front ++ first, hcomment first, fun rest => ?_⟩
    have hnone : '\n' ∉ front ++ line ++ ['\r'] := by simp [hfn, hline]
    have hend : front ++ line ++ ['\r', '\n'] ++ rest =
        front ++ line ++ ['\r'] ++ '\n' :: rest := by simp
    rw [htext, ht, hend, physicalLines_append_feed hnone, dropReturn_concat, hs, strayParts,
      if_neg hreturn]

def commentText (unit terminator : String) (depth : Nat) (ls : List (List Char)) : String :=
  linesText unit terminator depth (ls.map fun line => String.ofList (marked line))

theorem toList_commentText_cons (unit terminator : String) (depth : Nat) (line : List Char)
    (ls : List (List Char)) :
    (commentText unit terminator depth (line :: ls)).toList =
      (repeated unit depth).toList ++ marked line ++ terminator.toList
        ++ (commentText unit terminator depth ls).toList := by
  have hne : marked line ≠ [] := by
    unfold marked
    split <;> simp
  simp [commentText, linesText_cons, hne]

/-- The lines of a comment end with it, and those that are not marked are the stray parts. -/
theorem exists_physicalLines_commentText {unit : String} {depth : Nat}
    (hr : '\r' ∉ (repeated unit depth).toList) (hn : '\n' ∉ (repeated unit depth).toList)
    (ending : LineEnding) {ls : List (List Char)} (hls : ∀ line ∈ ls, '\n' ∉ line) :
    ∃ shown,
      (∀ rest, physicalLines ((commentText unit ending.terminator depth ls).toList ++ rest) =
        shown ++ physicalLines rest) ∧
      ((∀ line ∈ shown, IsCommentLine (repeated unit depth).toList line) ↔
        ∀ line ∈ ls, ∀ part ∈ strayParts ending.terminator line,
          IsCommentLine (repeated unit depth).toList part) := by
  induction ls with
  | nil => exact ⟨[], by simp [commentText, linesText]⟩
  | cons line ls ih =>
    rw [List.forall_mem_cons] at hls
    obtain ⟨first, hfirst, hline⟩ := exists_physicalLines_marked hr hn hls.1 ending
    obtain ⟨shown, hshown, hiff⟩ := ih hls.2
    refine ⟨first :: strayParts ending.terminator line ++ shown, fun rest => ?_, ?_⟩
    · rw [toList_commentText_cons, List.append_assoc, hline, hshown, List.append_assoc]
    · rw [List.forall_mem_append, List.forall_mem_cons, List.forall_mem_cons, hiff]
      exact and_congr_left' (and_iff_right hfirst)

theorem Element.comment_eq_marked (s : String) : Element.comment s =
    .seq (((charLines s.toList).map fun line => String.ofList (marked line)).map .line) := by
  have hmarked : ∀ line : List Char,
      (if (String.ofList line).isEmpty then "#" else "# " ++ String.ofList line) =
        String.ofList (marked line) := by
    intro line
    by_cases h : line = []
    · simp [marked, h]
    · have hne : (String.ofList line).isEmpty = false := by simpa using h
      rw [hne, marked, if_neg h]
      exact String.toList_inj.mp (by simp)
  rw [comment, Stencil.lines]
  simp only [List.map_map, Function.comp_def, hmarked]

theorem Element.run_comment {ε : Type} {flush : Writer String → Outcome ε (Writer String)}
    (s : String) {w : Writer String} (h : w.atLineStart = true) :
    ∃ count, (Element.comment s).run Sink.text flush w = .done { w with
      written := count
      target := w.target ++ commentText w.unit w.terminator w.depth (charLines s.toList) } := by
  rw [comment_eq_marked, run]
  exact runAll_lines _ h

theorem Element.emit_comment (s : String) {w : Writer String} (h : w.atLineStart = true) :
    ∃ after, (Element.comment s).emit (Sink.text : Sink String Empty) w = .done after ∧
      after.target =
        w.target ++ commentText w.unit w.terminator w.depth (charLines s.toList) := by
  obtain ⟨flush, hemit⟩ := (Element.comment s).emit_eq_run (Sink.text : Sink String Empty) w
  obtain ⟨count, hrun⟩ : ∃ count, (Element.comment s).run Sink.text flush w = _ := run_comment s h
  exact ⟨_, by rw [hemit, hrun], rfl⟩

/-- A comment at the start leaves no trace in what is written behind it. -/
theorem Element.render_comment_cons (s : String) (rest : List Element) (style : Style) :
    (Element.seq (Element.comment s :: rest)).render style =
      commentText style.indent.unit style.lineEnding.terminator 0 (charLines s.toList)
        ++ (Element.seq rest).render style := by
  obtain ⟨level, hlevel⟩ : ∃ level, level =
      max (Element.seq (Element.comment s :: rest)).rank (Element.seq rest).rank := ⟨_, rfl⟩
  obtain ⟨w, hw⟩ : ∃ w : Writer String, w = Writer.ofStyle style "" := ⟨_, rfl⟩
  have hempty : w.elements = [] := by rw [hw]; rfl
  have hstart : w.atLineStart = true := by rw [hw]; rfl
  obtain ⟨flush, hf, hrun⟩ := Element.exists_emitAt_eq_run Empty level
  obtain ⟨count, hcomment⟩ : ∃ count, (Element.comment s).run Sink.text flush w = _ :=
    run_comment s hstart
  have hbehind : { w with
      written := count
      target := w.target ++ commentText w.unit w.terminator w.depth (charLines s.toList) } =
      w.behind (commentText w.unit w.terminator w.depth (charLines s.toList)) count := by
    simp [Writer.behind, hw, Writer.ofStyle]
  have hfront : (Element.seq (Element.comment s :: rest)).rank ≤ level := by omega
  have hrest : (Element.seq rest).rank ≤ level := by omega
  rw [render, render, ← hw, ← emitAt_eq_emit hfront hempty, ← emitAt_eq_emit hrest hempty, hrun,
    hrun, run, run, runAll, hcomment, Outcome.andThen_done, hbehind,
    (steady_runAll hf rest).behind, Outcome.state_map, hw]
  rfl

namespace Module

def headed (m : Module) (s : String) : Module :=
  { m with header := some s }

theorem withHeader_cases (m : Module) (s : String) :
    (m.withHeader s).header = none ∨ m.withHeader s = m.headed s := by
  unfold withHeader visible headed
  split
  · exact .inl rfl
  · exact .inr rfl

theorem exists_element_headed (m : Module) :
    ∃ rest, ∀ s, (m.headed s).element = .seq (Element.comment s :: rest) := by
  obtain ⟨others, hothers⟩ : ∃ others, ∀ s, (m.headed s).sections = Element.comment s :: others :=
    ⟨({ m with header := none } : Module).sections, fun _ => rfl⟩
  have hdefinitions : ∀ s, (m.headed s).definitions = m.body.flatMap fun e => [gap 2, e] := by
    intro s
    rw [definitions, hothers]
    rfl
  obtain ⟨front, hfront⟩ : ∃ front, ∀ e : Element,
      (e :: others).intersperse (gap 1) = e :: front := by
    cases others with
    | nil => exact ⟨[], fun _ => rfl⟩
    | cons a others => exact ⟨_, fun _ => rfl⟩
  refine ⟨front ++ m.body.flatMap (fun e => [gap 2, e]) ++ [.freshLine], fun s => ?_⟩
  rw [element, hothers, hdefinitions, hfront]
  rfl

/-- A header puts its comment before the module, and changes nothing else in it. -/
theorem render_headed (m : Module) (s : String) :
    (m.headed s).render =
      commentText m.style.indent.unit m.style.lineEnding.terminator 0 (charLines s.toList)
        ++ (m.headed "").render := by
  obtain ⟨rest, hrest⟩ := m.exists_element_headed
  have hstyle : ∀ text, (m.headed text).style = m.style := fun _ => rfl
  have hempty : commentText m.style.indent.unit m.style.lineEnding.terminator 0
      (charLines "".toList) = "" := rfl
  rw [render, render, hrest, hrest, hstyle, hstyle, Element.render_comment_cons s,
    Element.render_comment_cons "", hempty, String.empty_append]

end Module

theorem Indent.not_mem_repeated {indent : Indent} {c : Char} (hs : c ≠ ' ') (ht : c ≠ '\t')
    (depth : Nat) : c ∉ (repeated indent.unit depth).toList := by
  intro hm
  rcases Indent.eq_of_mem_unit (mem_of_mem_repeated hm) with h | h
  · exact hs h
  · exact ht h

/-- In a text that begins with a comment, the lines of the comment come first. -/
theorem exists_physicalLines_comment (s : String) (style : Style) (depth : Nat) :
    ∃ shown,
      (∀ rest, physicalLines ((commentText style.indent.unit style.lineEnding.terminator depth
        (charLines s.toList)).toList ++ rest) = shown ++ physicalLines rest) ∧
      ((∀ line ∈ shown, IsCommentLine (repeated style.indent.unit depth).toList line) ↔
        Contained (repeated style.indent.unit depth) style.lineEnding.terminator s) :=
  exists_physicalLines_commentText (Indent.not_mem_repeated (by decide) (by decide) depth)
    (Indent.not_mem_repeated (by decide) (by decide) depth) style.lineEnding
    fun _ hline => newline_not_mem_of_mem_charLines hline

/-- All lines of a comment are marked exactly if its text goes on with a comment behind every
carriage return. The header of a module brings the lines of its comment and no others. -/
theorem Element.comment_marked_iff (s : String) (style : Style) (levels : Nat) (target : String) :
    let w : Writer String := (Writer.ofStyle style target).indent levels
    (∃ after text, (Element.comment s).emit (Sink.text : Sink String Empty) w = .done after ∧
      after.target = target ++ text ∧
      ((∀ line ∈ physicalLines text.toList,
          IsCommentLine (repeated w.unit w.depth).toList line) ↔
        Contained (repeated w.unit w.depth) w.terminator s)) ∧
    ∀ m : Module, ((m.withHeader s).header = none ∨ m.withHeader s = m.headed s) ∧
      ∃ shown, physicalLines (m.headed s).render.toList =
          shown ++ physicalLines (m.headed "").render.toList ∧
        ((∀ line ∈ shown, IsCommentLine [] line) ↔
          Contained "" m.style.lineEnding.terminator s) := by
  intro w
  refine ⟨?_, fun m => ⟨m.withHeader_cases s, ?_⟩⟩
  · have hstart : w.atLineStart = true := rfl
    obtain ⟨after, hemit, htarget⟩ := Element.emit_comment s hstart
    obtain ⟨shown, hshown, hiff⟩ := exists_physicalLines_comment s style w.depth
    refine ⟨after, _, hemit, htarget, ?_⟩
    have htext := hshown []
    rw [List.append_nil, physicalLines, List.append_nil] at htext
    exact htext ▸ hiff
  · obtain ⟨shown, hshown, hiff⟩ := exists_physicalLines_comment s m.style 0
    refine ⟨shown, ?_, hiff⟩
    rw [m.render_headed s, String.toList_append, hshown]

/-- A carriage return in a header lets its text out, and the reader takes it for code. -/
theorem return_leaves_comment :
    (Element.comment "Generated\rimport os").render Style.plain = "# Generated\rimport os\n" ∧
      physicalLines "# Generated\rimport os\n".toList =
        ["# Generated".toList, "import os".toList] ∧
      ¬ IsCommentLine [] "import os".toList ∧
      (({ name := "m", style := .plain } : Module).withHeader "Generated\rimport os").render =
        "# Generated\rimport os\n" := by
  refine ⟨by decide, by decide, ?_, by decide⟩
  rintro ⟨rest, hrest⟩
  exact absurd (List.cons.inj hrest).1 (by decide)

end Stencil
