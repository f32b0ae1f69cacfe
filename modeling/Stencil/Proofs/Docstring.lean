import Mathlib.Data.List.Induction
import Stencil.Proofs.Composition
import Stencil.Proofs.Trim

/-! Where the literal of a docstring ends. A reader of Python takes a backslash together with
the character behind it, and ends the literal at the first three quotes in a row. Text over
several lines ends at the quotes that were written to close it. Text of one line does too,
unless the backslashes before its end pair up the wrong way. -/

namespace Stencil

/-- A place inside a literal: behind so many quotes in a row, or behind a backslash. -/
inductive Literal where
  | quotes (run : Nat)
  | escape
deriving DecidableEq

namespace Literal

/-- Goes over one more character. The third quote in a row ends the literal. -/
def step : Literal → Char → Option Literal
  | .escape, _ => some (.quotes 0)
  | .quotes run, c =>
    if c = '\\' then some .escape
    else if c = '"' then if run < 2 then some (.quotes (run + 1)) else none
    else some (.quotes 0)

/-- What follows the literal, if it ends. -/
def rest? : Literal → List Char → Option (List Char)
  | _, [] => none
  | place, c :: cs =>
    match place.step c with
    | none => some cs
    | some next => next.rest? cs

/-- Goes over text that does not end the literal. -/
def over? (place : Literal) (cs : List Char) : Option Literal :=
  cs.foldlM step place

theorem over?_cons (place : Literal) (c : Char) (cs : List Char) :
    place.over? (c :: cs) = (place.step c).bind fun next => next.over? cs :=
  rfl

theorem over?_append (place : Literal) (xs ys : List Char) :
    place.over? (xs ++ ys) = (place.over? xs).bind fun next => next.over? ys := by
  unfold over?
  rw [List.foldlM_append]
  rfl

theorem rest?_append {place next : Literal} {xs : List Char} (h : place.over? xs = some next)
    (ys : List Char) : place.rest? (xs ++ ys) = next.rest? ys := by
  induction xs generalizing place with
  | nil =>
    have he : place = next := by simpa [over?] using h
    rw [he, List.nil_append]
  | cons c xs ih =>
    rw [over?_cons] at h
    obtain ⟨mid, hs, hm⟩ := Option.bind_eq_some_iff.mp h
    rw [List.cons_append, rest?, hs]
    exact ih hm

theorem over?_of_append {place : Literal} {xs ys : List Char}
    (h : (place.over? (xs ++ ys)).isSome) : (place.over? xs).isSome := by
  rw [over?_append] at h
  cases hx : place.over? xs with
  | none => simp [hx] at h
  | some next => rfl

theorem step_quote (run : Nat) :
    (quotes run).step '"' = if run < 2 then some (.quotes (run + 1)) else none :=
  rfl

/-- Characters that are neither quotes nor backslashes begin a new run, wherever they stand. -/
theorem step_plain (place : Literal) {c : Char} (hq : c ≠ '"') (hb : c ≠ '\\') :
    place.step c = some (.quotes 0) := by
  cases place with
  | quotes run => simp [step, hq, hb]
  | escape => rfl

theorem over?_plain {place : Literal} {cs : List Char} (hne : cs ≠ [])
    (h : ∀ c ∈ cs, c ≠ '"' ∧ c ≠ '\\') : place.over? cs = some (.quotes 0) := by
  induction cs generalizing place with
  | nil => exact absurd rfl hne
  | cons c cs ih =>
    obtain ⟨hq, hb⟩ := h c (by simp)
    rw [over?_cons, place.step_plain hq hb, Option.bind_some]
    cases cs with
    | nil => rfl
    | cons d cs => exact ih (by simp) fun e he => h e (by simp [he])

/-- Three quotes end the literal behind them only from a place with no quotes before it. -/
theorem rest?_closing_iff (place : Literal) {ending : List Char}
    (he : ∀ c ∈ ending, c ≠ '"' ∧ c ≠ '\\') :
    place.rest? ('"' :: '"' :: '"' :: ending) = some ending ↔ place = .quotes 0 := by
  cases place with
  | escape =>
    have hopen : ∀ run, (Literal.quotes run).rest? ending = none := by
      intro run
      cases hc : ending with
      | nil => rfl
      | cons c cs =>
        rw [← List.append_nil cs, ← List.cons_append, ← hc,
          rest?_append (over?_plain (by simp [hc]) he)]
        rfl
    simp [rest?, step, hopen]
  | quotes run =>
    match run with
    | 0 => simp [rest?, step]
    | 1 => simp [rest?, step]
    | run + 2 =>
      have h : ¬ run + 2 < 2 := by omega
      have hne : '"' :: '"' :: ending ≠ ending := by
        intro heq
        have hlength := congrArg List.length heq
        simp only [List.length_cons] at hlength
        omega
      simpa [rest?, step, h] using hne

end Literal

/-- How many backslashes stand at the end. -/
def backslashes (cs : List Char) : Nat :=
  (cs.reverse.takeWhile (· == '\\')).length

theorem backslashes_concat (cs : List Char) (c : Char) :
    backslashes (cs ++ [c]) = if c = '\\' then backslashes cs + 1 else 0 := by
  by_cases hc : c = '\\' <;> simp [backslashes, hc]

/-- A literal stands behind a backslash if the backslashes before do not pair up. -/
theorem Literal.over?_eq_escape_iff {cs : List Char} {place : Literal}
    (h : (Literal.quotes 0).over? cs = some place) :
    place = .escape ↔ backslashes cs % 2 = 1 := by
  induction cs using List.reverseRecOn generalizing place with
  | nil =>
    have he : Literal.quotes 0 = place := by simpa [over?] using h
    simp [← he, backslashes]
  | append_singleton cs c ih =>
    rw [over?_append] at h
    obtain ⟨mid, hm, hs⟩ := Option.bind_eq_some_iff.mp h
    have hstep : mid.step c = some place := by
      rw [over?_cons] at hs
      simpa [over?] using hs
    have hmid := ih hm
    rw [backslashes_concat]
    cases mid with
    | escape =>
      have hodd : backslashes cs % 2 = 1 := hmid.mp rfl
      have hp : Literal.quotes 0 = place := by simpa [step] using hstep
      rw [← hp]
      split
      · simp only [reduceCtorEq, false_iff]
        omega
      · simp
    | quotes run =>
      have heven : ¬ backslashes cs % 2 = 1 := fun ho => by simpa using hmid.mpr ho
      by_cases hc : c = '\\'
      · have hp : Literal.escape = place := by simpa [step, hc] using hstep
        rw [if_pos hc, ← hp]
        simp only [true_iff]
        omega
      · have hp : place ≠ .escape := by
          rintro rfl
          by_cases hq : c = '"'
          · by_cases hr : run < 2 <;> simp [step, hq, hr] at hstep
          · simp [step, hc, hq] at hstep
        simp [hc, hp]

def leadingQuotes (cs : List Char) : Nat :=
  (cs.takeWhile (· == '"')).length

/-- From here the text cannot come to three quotes in a row: none were read, or too few. -/
def Literal.Admits : Literal → List Char → Prop
  | .escape, _ => True
  | .quotes run, cs => run = 0 ∨ run + leadingQuotes cs ≤ 2

theorem Literal.over?_escapeTriples {place : Literal} {cs : List Char} (h : place.Admits cs) :
    (place.over? (escapeTriples cs)).isSome := by
  fun_induction escapeTriples cs generalizing place with
  | case1 rest ih =>
    have hrest : ((Literal.quotes 0).over? (escapeTriples rest)).isSome := ih (.inl rfl)
    cases place with
    | escape => simpa [over?_cons, step] using hrest
    | quotes run => simpa [over?_cons, step] using hrest
  | case2 c rest hno ih =>
    rw [over?_cons]
    cases place with
    | escape => exact ih (.inl rfl)
    | quotes run =>
      by_cases hb : c = '\\'
      · have hrest : (Literal.escape.over? (escapeTriples rest)).isSome := ih trivial
        simpa [step, hb] using hrest
      · by_cases hq : c = '"'
        · -- the quotes read and those to come are not three, or they would have been escaped
          subst hq
          have hfew : leadingQuotes ('"' :: rest) ≤ 2 := by
            match rest, hno with
            | [], _ => simp [leadingQuotes]
            | d :: [], _ => by_cases hd : d = '"' <;> simp [leadingQuotes, hd]
            | d :: e :: more, hno =>
              by_cases hd : d = '"'
              · have he : e ≠ '"' := fun he => hno more rfl (by rw [hd, he])
                simp [leadingQuotes, hd, he]
              · simp [leadingQuotes, hd]
          have hcount : leadingQuotes ('"' :: rest) = leadingQuotes rest + 1 := by
            simp [leadingQuotes]
          have hrun : run + 1 + leadingQuotes rest ≤ 2 := by
            rcases h with h | h <;> omega
          have hlt : run < 2 := by omega
          have hrest : ((Literal.quotes (run + 1)).over? (escapeTriples rest)).isSome :=
            ih (.inr hrun)
          simpa [step, hlt] using hrest
        · have hrest : ((Literal.quotes 0).over? (escapeTriples rest)).isSome := ih (.inl rfl)
          simpa [step, hb, hq] using hrest
  | case3 => rfl

section OneLine

/-- The backslashes before the end are odd in number, or a quote at the end stands behind an even
number of them: taken in pairs they leave it bare, though the last one stands right before it. -/
def Mispaired (cs : List Char) : Prop :=
  backslashes cs % 2 = 1 ∨
    ∃ front, cs = front ++ ['"'] ∧ backslashes front ≠ 0 ∧ backslashes front % 2 = 0

theorem exists_concat_of_backslashes {cs : List Char} (h : backslashes cs ≠ 0) :
    ∃ front, cs = front ++ ['\\'] := by
  rcases List.eq_nil_or_concat cs with rfl | ⟨front, c, rfl⟩
  · exact absurd rfl h
  · rw [List.concat_eq_append, backslashes_concat] at h
    by_cases hc : c = '\\'
    · exact ⟨front, by rw [List.concat_eq_append, hc]⟩
    · simp [hc] at h

/-- A character that is no quote is never part of three quotes in a row. -/
theorem escapeTriples_append_cons {c : Char} (hc : c ≠ '"') (xs ys : List Char) :
    escapeTriples (xs ++ c :: ys) = escapeTriples xs ++ c :: escapeTriples ys := by
  fun_induction escapeTriples xs with
  | case1 rest ih => simp [escapeTriples, ih]
  | case2 d rest hno ih =>
    rw [List.cons_append, List.cons_append, ← ih]
    apply escapeTriples.eq_2
    intro more hd hrest
    match rest, hno with
    | [], _ => exact hc (List.cons.inj hrest).1
    | [a], _ => exact hc (List.cons.inj (List.cons.inj hrest).2).1
    | a :: b :: rest, hno =>
      simp only [List.cons_append, List.cons.injEq] at hrest
      exact hno rest hd (by rw [hrest.1, hrest.2.1])
  | case3 =>
    rw [List.nil_append, List.nil_append]
    exact escapeTriples.eq_2 c ys fun more h _ => hc h

theorem escapeTriples_cons {c : Char} (hc : c ≠ '"') (cs : List Char) :
    escapeTriples (c :: cs) = c :: escapeTriples cs :=
  escapeTriples_append_cons hc [] cs

theorem escapeTriples_concat {c : Char} (hc : c ≠ '"') (cs : List Char) :
    escapeTriples (cs ++ [c]) = escapeTriples cs ++ [c] :=
  escapeTriples_append_cons hc cs []

/-- A quote at the end stays as it is, or was the last of three. -/
theorem escapeTriples_concat_quote (xs : List Char) :
    escapeTriples (xs ++ ['"']) = escapeTriples xs ++ ['"'] ∨
      ∃ front, xs = front ++ ['"', '"'] ∧
        escapeTriples (xs ++ ['"']) =
          escapeTriples front ++ ['\\', '"', '\\', '"', '\\'] ++ ['"'] := by
  fun_induction escapeTriples xs with
  | case1 rest ih =>
    rcases ih with h | ⟨front, hfront, h⟩
    · exact .inl (by simp [escapeTriples, h])
    · exact .inr ⟨'"' :: '"' :: '"' :: front, by simp [hfront], by simp [escapeTriples, h]⟩
  | case2 d rest hno ih =>
    by_cases htriple : d = '"' ∧ rest = ['"']
    · exact .inr ⟨[], by simp [htriple.1, htriple.2], by simp [htriple.1, htriple.2, escapeTriples]⟩
    · have hstep : escapeTriples (d :: (rest ++ ['"'])) = d :: escapeTriples (rest ++ ['"']) := by
        apply escapeTriples.eq_2
        intro more hd hrest
        match rest, hno with
        | [], _ => simp at hrest
        | [a], _ => exact htriple ⟨hd, by rw [(List.cons.inj hrest).1]⟩
        | a :: b :: rest, hno =>
          simp only [List.cons_append, List.cons.injEq] at hrest
          exact hno rest hd (by rw [hrest.1, hrest.2.1])
      rw [List.cons_append, hstep]
      rcases ih with h | ⟨front, hfront, h⟩
      · exact .inl (by rw [h, List.cons_append])
      · have hkeep : escapeTriples (d :: front) = d :: escapeTriples front := by
          apply escapeTriples.eq_2
          intro more hd hmore
          exact hno (more ++ ['"', '"']) hd (by rw [hfront, hmore]; rfl)
        exact .inr ⟨d :: front, by rw [hfront, List.cons_append],
          by rw [h, hkeep, List.cons_append, List.cons_append]⟩
  | case3 => exact .inl rfl

theorem backslashes_escapeTriples (cs : List Char) :
    backslashes (escapeTriples cs) = backslashes cs := by
  induction cs using List.reverseRecOn with
  | nil => rfl
  | append_singleton cs c ih =>
    by_cases hc : c = '"'
    · have hzero : backslashes (escapeTriples (cs ++ ['"'])) = 0 := by
        rcases escapeTriples_concat_quote cs with h | ⟨front, -, h⟩ <;>
          simp [h, backslashes]
      rw [hc, hzero, backslashes_concat]
      rfl
    · rw [escapeTriples_concat hc, backslashes_concat, backslashes_concat, ih]

theorem mispaired_escapeTriples_iff (cs : List Char) :
    Mispaired (escapeTriples cs) ↔ Mispaired cs := by
  unfold Mispaired
  rw [backslashes_escapeTriples]
  refine or_congr_right ⟨?_, ?_⟩
  · rintro ⟨front, he, hne, heven⟩
    rcases List.eq_nil_or_concat cs with rfl | ⟨xs, c, rfl⟩
    · simp [escapeTriples] at he
    · rw [List.concat_eq_append] at he ⊢
      by_cases hc : c = '"'
      · subst hc
        rcases escapeTriples_concat_quote xs with h | ⟨front', -, h⟩
        · have hfront : escapeTriples xs = front := List.append_cancel_right (h.symm.trans he)
          rw [← hfront, backslashes_escapeTriples] at hne heven
          exact ⟨xs, rfl, hne, heven⟩
        · -- the last of three stands behind one backslash
          have hfront : front = escapeTriples front' ++ ['\\', '"', '\\', '"', '\\'] :=
            List.append_cancel_right (he.symm.trans h)
          simp [hfront, backslashes] at heven
      · rw [escapeTriples_append_cons hc] at he
        exact absurd (by simpa [escapeTriples] using he : _ ∧ c = '"').2 hc
  · rintro ⟨front, rfl, hne, heven⟩
    obtain ⟨f, rfl⟩ := exists_concat_of_backslashes hne
    refine ⟨escapeTriples (f ++ ['\\']), ?_, ?_, ?_⟩
    · rw [List.append_assoc, List.singleton_append, escapeTriples_append_cons (by decide),
        escapeTriples_append_cons (by decide)]
      simp [escapeTriples]
    · rwa [backslashes_escapeTriples]
    · rwa [backslashes_escapeTriples]

theorem escapeLastQuote_of_ne {c : Char} (hc : c ≠ '"') (front : List Char) :
    escapeLastQuote (front ++ [c]) = front ++ [c] := by
  unfold escapeLastQuote
  rw [List.reverse_append, List.reverse_singleton, List.singleton_append]
  split
  · rfl
  · next hr => exact absurd (List.cons.inj hr).1 hc
  · rfl

theorem escapeLastQuote_concat_quote (front : List Char) :
    escapeLastQuote (front ++ ['"']) =
      if backslashes front = 0 then front ++ ['\\', '"'] else front ++ ['"'] := by
  unfold escapeLastQuote
  rw [List.reverse_append, List.reverse_singleton, List.singleton_append]
  rcases List.eq_nil_or_concat front with rfl | ⟨f, c, rfl⟩
  · rfl
  · rw [List.concat_eq_append, backslashes_concat, List.reverse_append, List.reverse_singleton,
      List.singleton_append]
    by_cases hc : c = '\\'
    · simp [hc]
    · rw [if_neg hc, if_pos rfl]
      split
      · next hr => exact absurd (List.cons.inj (List.cons.inj hr).2).1 hc
      · next hr => simp [← (List.cons.inj hr).2]
      · next hno => exact absurd rfl (hno _)

/-- Where the closing quotes find the literal, if the text alone does not end it. -/
theorem Literal.over?_escapeLastQuote {cs : List Char}
    (h : ((Literal.quotes 0).over? cs).isSome) :
    ∃ place, (Literal.quotes 0).over? (escapeLastQuote cs) = some place ∧
      (place = .quotes 0 ↔ ¬ Mispaired cs) := by
  rcases List.eq_nil_or_concat cs with rfl | ⟨front, c, rfl⟩
  · exact ⟨.quotes 0, rfl, by simp [Mispaired, backslashes]⟩
  rw [List.concat_eq_append] at h ⊢
  obtain ⟨mid, hm⟩ := Option.isSome_iff_exists.mp (over?_of_append h)
  have hmid := over?_eq_escape_iff hm
  by_cases hc : c = '"'
  · subst hc
    have hpair : Mispaired (front ++ ['"']) ↔
        backslashes front ≠ 0 ∧ backslashes front % 2 = 0 := by
      unfold Mispaired
      rw [backslashes_concat]
      simp
    rw [hpair, escapeLastQuote_concat_quote]
    by_cases hb : backslashes front = 0
    · obtain ⟨run, rfl⟩ : ∃ run, mid = .quotes run := by
        cases mid with
        | quotes run => exact ⟨run, rfl⟩
        | escape =>
          have := hmid.mp rfl
          omega
      refine ⟨.quotes 0, ?_, by simp [hb]⟩
      rw [if_pos hb, over?_append, hm]
      rfl
    · rw [if_neg hb, over?_append, hm]
      cases mid with
      | escape =>
        have hodd := hmid.mp rfl
        refine ⟨.quotes 0, rfl, ?_⟩
        simp only [true_iff]
        omega
      | quotes run =>
        have heven : ¬ backslashes front % 2 = 1 := fun ho => by simpa using hmid.mpr ho
        have hrun : run < 2 := by
          rw [over?_append, hm, Option.bind_some, over?_cons, step_quote] at h
          by_cases hr : run < 2
          · exact hr
          · rw [if_neg hr] at h
            cases h
        refine ⟨.quotes (run + 1), ?_, ?_⟩
        · rw [Option.bind_some, over?_cons, step_quote, if_pos hrun]
          rfl
        simp only [quotes.injEq, Nat.add_eq_zero_iff, reduceCtorEq, and_false, false_iff, not_not]
        omega
  · have hpair : Mispaired (front ++ [c]) ↔ backslashes (front ++ [c]) % 2 = 1 := by
      simp [Mispaired, hc]
    obtain ⟨place, hp⟩ := Option.isSome_iff_exists.mp h
    have hstep : mid.step c = some place := by
      rw [over?_append, hm] at hp
      simpa [over?_cons, over?] using hp
    have hzero : place = .escape ∨ place = .quotes 0 := by
      cases mid with
      | escape => exact .inr (by simpa [step] using hstep.symm)
      | quotes run =>
        by_cases hb : c = '\\'
        · exact .inl (by simpa [step, hb] using hstep.symm)
        · exact .inr (by simpa [step, hb, hc] using hstep.symm)
    rw [escapeLastQuote_of_ne hc, hpair, ← over?_eq_escape_iff hp]
    refine ⟨place, hp, ?_⟩
    rcases hzero with rfl | rfl <;> simp

end OneLine

section SeveralLines

theorem Literal.over?_pieces {place : Literal} {cs : List Char} (h : (place.over? cs).isSome) :
    ∃ first others, pieces cs = first :: others ∧ (place.over? first).isSome ∧
      ∀ piece ∈ others, ((Literal.quotes 0).over? piece).isSome := by
  induction cs generalizing place with
  | nil => exact ⟨[], [], rfl, rfl, by simp⟩
  | cons c cs ih =>
    rw [over?_cons] at h
    obtain ⟨next, hnext, hrest⟩ : ∃ next, place.step c = some next ∧ (next.over? cs).isSome := by
      cases hs : place.step c with
      | none => simp [hs] at h
      | some next => exact ⟨next, rfl, by simpa [hs] using h⟩
    obtain ⟨first, others, hp, hfirst, hothers⟩ := ih hrest
    by_cases hc : c = '\n'
    · have hzero : next = .quotes 0 := by
        rw [place.step_plain (by rw [hc]; decide) (by rw [hc]; decide)] at hnext
        exact (Option.some.inj hnext).symm
      refine ⟨[], first :: others, ?_, rfl, ?_⟩
      · rw [pieces] at hp ⊢
        rw [splitOn, if_pos hc, hp]
      · rw [hzero] at hfirst
        exact List.forall_mem_cons.mpr ⟨hfirst, hothers⟩
    · refine ⟨c :: first, others, ?_, ?_, hothers⟩
      · rw [pieces] at hp ⊢
        rw [splitOn, if_neg hc, hp]
      · rw [over?_cons, hnext]
        exact hfirst

theorem exists_piece_of_mem_linesOfPieces {line : List Char} {ps : List (List Char)}
    (h : line ∈ linesOfPieces ps) : ∃ piece ∈ ps, line <+: piece := by
  fun_induction linesOfPieces ps with
  | case1 => cases h
  | case2 => cases h
  | case3 last _ =>
    rw [List.mem_singleton.mp h]
    exact ⟨last, by simp, List.prefix_refl last⟩
  | case4 p q ps ih =>
    rcases List.mem_cons.mp h with rfl | h
    · refine ⟨p, by simp, ?_⟩
      unfold dropReturn
      split
      · exact List.dropLast_prefix p
      · exact List.prefix_refl p
    · obtain ⟨piece, hm, hp⟩ := ih h
      exact ⟨piece, List.mem_cons_of_mem p hm, hp⟩

/-- No line of the text ends the literal, if the text as a whole does not. -/
theorem Literal.over?_line {cs line : List Char} (h : ((Literal.quotes 0).over? cs).isSome)
    (hl : line ∈ charLines cs) : ((Literal.quotes 0).over? (trimRight line)).isSome := by
  obtain ⟨first, others, hp, hfirst, hothers⟩ := over?_pieces h
  obtain ⟨piece, hm, more, hpiece⟩ := exists_piece_of_mem_linesOfPieces hl
  have hall : ∀ piece ∈ pieces cs, ((Literal.quotes 0).over? piece).isSome := by
    rw [hp]
    exact List.forall_mem_cons.mpr ⟨hfirst, hothers⟩
  have hwhole := hall piece hm
  obtain ⟨blanks, _, hline⟩ := exists_append_trimRight line
  rw [← hpiece, hline, List.append_assoc] at hwhole
  exact over?_of_append hwhole

end SeveralLines

section Emission

/-- Characters that mean nothing to a literal. -/
def Neutral (s : String) : Prop :=
  ∀ c ∈ s.toList, c ≠ '"' ∧ c ≠ '\\'

theorem Indent.eq_of_mem_unit {indent : Indent} {c : Char} (h : c ∈ indent.unit.toList) :
    c = ' ' ∨ c = '\t' := by
  cases indent with
  | spaces width =>
    rw [Indent.unit, String.toList_ofList] at h
    exact .inl (List.eq_of_mem_replicate h)
  | tab => exact .inr (by simpa [Indent.unit] using h)

theorem mem_of_mem_repeated {s : String} {count : Nat} {c : Char}
    (h : c ∈ (repeated s count).toList) : c ∈ s.toList := by
  induction count with
  | zero => simp at h
  | succ count ih =>
    rw [repeated_succ, String.toList_append] at h
    exact (List.mem_append.mp h).elim id ih

theorem neutral_unit (indent : Indent) : Neutral indent.unit := by
  intro c hc
  rcases Indent.eq_of_mem_unit hc with rfl | rfl <;> decide

theorem neutral_terminator (ending : LineEnding) : Neutral ending.terminator := by
  cases ending <;> simp [Neutral, LineEnding.terminator]

theorem neutral_repeated {s : String} (h : Neutral s) (count : Nat) :
    Neutral (repeated s count) :=
  fun c hc => h c (mem_of_mem_repeated hc)

theorem Neutral.over? {s : String} (h : Neutral s) :
    (Literal.quotes 0).over? s.toList = some (.quotes 0) := by
  cases hs : s.toList with
  | nil => rfl
  | cons c cs =>
    rw [← hs]
    exact Literal.over?_plain (by simp [hs]) h

/-- Lines that do not end the literal leave it where it was, each with its terminator. -/
theorem Literal.over?_lines {unit terminator : String} (hu : Neutral unit)
    (ht : Neutral terminator) (hne : terminator ≠ "") (depth : Nat) {lines : List Line}
    (h : ∀ line ∈ lines, ((Literal.quotes 0).over? line.text.toList).isSome) :
    (Literal.quotes 0).over?
        (String.join (lines.map fun line => line.shown unit depth ++ terminator)).toList =
      some (.quotes 0) := by
  induction lines with
  | nil => rfl
  | cons line lines ih =>
    have hline : ((Literal.quotes 0).over? (line.shown unit depth).toList).isSome := by
      unfold Line.shown
      split
      · rfl
      · rw [String.toList_append, over?_append, (neutral_repeated hu _).over?]
        exact h line (by simp)
    obtain ⟨place, hp⟩ := Option.isSome_iff_exists.mp hline
    have hend : place.over? terminator.toList = some (.quotes 0) :=
      over?_plain (by simpa using hne) ht
    rw [List.map_cons, String.join_cons, String.toList_append, String.toList_append,
      over?_append, over?_append, hp, Option.bind_some, hend, Option.bind_some]
    exact ih fun l hl => h l (by simp [hl])

theorem Element.Flat.emit_lines {e : Element} (hf : e.Flat) (hc : e.Closed) {w : Writer String}
    (hs : w.atLineStart = true) (ht : w.terminator ≠ "") (hd : w.depth ≤ maxDepth) :
    ∃ after, e.emit (Sink.text : Sink String Empty) w = .done after ∧
      after.target = w.target ++
        String.join ((e.lines 0).map fun line => line.shown w.unit w.depth ++ w.terminator) := by
  refine ⟨_, hf.plain.emit_text hs ht (by rw [hf.height]; omega), ?_⟩
  have hpage : e.page = Page.blank.below (e.lines 0) := hc.lay_eq 0
  simp [Page.onto, hpage, Page.shown, Page.below]

theorem Element.lines_line (s : String) : (Element.line s).lines 0 = [⟨0, s⟩] := by
  by_cases hs : s = ""
  · subst hs
    rfl
  · simp [Element.line, Element.lines, Element.lay, Element.layAll, Page.write, Page.lineFeed, hs]

theorem Element.lines_lines (ls : List String) :
    (Element.seq (ls.map .line)).lines 0 = ls.map fun l => ⟨0, l⟩ := by
  rw [lines_seq]
  · induction ls with
    | nil => rfl
    | cons l ls ih => simp [lines_line, ih]
  · intro e he
    obtain ⟨l, _, rfl⟩ := List.mem_map.mp he
    exact closed_line l

theorem newline_mem_escapeTriples_iff (cs : List Char) :
    '\n' ∈ escapeTriples cs ↔ '\n' ∈ cs := by
  fun_induction escapeTriples cs with
  | case1 rest ih => simp [ih]
  | case2 c rest _ ih => simp [ih]
  | case3 => rfl

theorem Element.docstring_eq_of_newline {s : String} (h : '\n' ∈ trimBoth s.toList) :
    Element.docstring s = .seq ((tripleQuote ::
      ((charLines (escapeTriples (trimBoth s.toList))).map fun l => String.ofList (trimRight l))
        ++ [tripleQuote]).map .line) := by
  have hm : '\n' ∈ escapeTriples (trimBoth s.toList) := (newline_mem_escapeTriples_iff _).mpr h
  simp [Element.docstring, hm, Function.comp_def]

theorem Element.docstring_of_newline {s : String} (h : '\n' ∈ trimBoth s.toList) :
    (Element.docstring s).lines 0 =
      ⟨0, tripleQuote⟩ ::
        ((charLines (escapeTriples (trimBoth s.toList))).map fun l =>
          ⟨0, String.ofList (trimRight l)⟩) ++ [⟨0, tripleQuote⟩] := by
  rw [docstring_eq_of_newline h, lines_lines]
  simp [Function.comp_def]

theorem Element.docstring_eq_of_no_newline {s : String} (h : '\n' ∉ trimBoth s.toList) :
    Element.docstring s = .line (tripleQuote
      ++ String.ofList (escapeLastQuote (escapeTriples (trimBoth s.toList))) ++ tripleQuote) := by
  have hm : '\n' ∉ escapeTriples (trimBoth s.toList) :=
    fun hm => h ((newline_mem_escapeTriples_iff _).mp hm)
  simp [Element.docstring, hm]

theorem Element.docstring_of_no_newline {s : String} (h : '\n' ∉ trimBoth s.toList) :
    (Element.docstring s).lines 0 =
      [⟨0, tripleQuote ++ String.ofList (escapeLastQuote (escapeTriples (trimBoth s.toList)))
        ++ tripleQuote⟩] := by
  rw [docstring_eq_of_no_newline h, lines_line]

theorem Literal.rest?_closed_iff {text terminator : String} {place : Literal}
    (h : (Literal.quotes 0).over? text.toList = some place) (ht : Neutral terminator) :
    (Literal.quotes 0).rest? (text ++ tripleQuote ++ terminator).toList = some terminator.toList ↔
      place = .quotes 0 := by
  have hquote : tripleQuote.toList = ['"', '"', '"'] := rfl
  rw [String.toList_append, String.toList_append, List.append_assoc, rest?_append h, hquote]
  exact rest?_closing_iff place ht

section Between

variable {unit terminator : String} (hu : Neutral unit) (ht : Neutral terminator)
  (hne : terminator ≠ "") (depth : Nat)

variable (unit) in
theorem shown_tripleQuote (text : String) :
    (⟨0, tripleQuote ++ text⟩ : Line).shown unit depth =
      repeated unit depth ++ tripleQuote ++ text := by
  simp [Line.shown, tripleQuote, String.append_assoc]

include hu ht hne in
theorem Element.between_of_newline {s : String} (h : '\n' ∈ trimBoth s.toList) :
    ∃ text, (Literal.quotes 0).over? text.toList = some (.quotes 0) ∧
      String.join (((Element.docstring s).lines 0).map fun line =>
          line.shown unit depth ++ terminator) =
        repeated unit depth ++ tripleQuote ++ (text ++ tripleQuote ++ terminator) := by
  let inner : List Line := (charLines (escapeTriples (trimBoth s.toList))).map fun l =>
    ⟨0, String.ofList (trimRight l)⟩
  let shown : String := String.join (inner.map fun line => line.shown unit depth ++ terminator)
  have hlines : ∀ line ∈ inner, ((Literal.quotes 0).over? line.text.toList).isSome := by
    intro line hl
    obtain ⟨l, hm, rfl⟩ := List.mem_map.mp hl
    simpa using Literal.over?_line (Literal.over?_escapeTriples (.inl rfl)) hm
  have hbare : (⟨0, tripleQuote⟩ : Line).shown unit depth = repeated unit depth ++ tripleQuote := by
    simpa using shown_tripleQuote unit depth ""
  refine ⟨terminator ++ shown ++ repeated unit depth, ?_, ?_⟩
  · rw [String.toList_append, String.toList_append, Literal.over?_append, Literal.over?_append,
      ht.over?, Option.bind_some, Literal.over?_lines hu ht hne depth hlines, Option.bind_some,
      (neutral_repeated hu depth).over?]
  · rw [docstring_of_newline h, List.cons_append, List.map_cons, List.map_append, String.join_cons,
      String.join_append]
    simp only [List.map_cons, List.map_nil, String.join_cons, String.join_nil, String.append_empty,
      hbare, String.append_assoc]
    rfl

variable (unit terminator) in
theorem Element.between_of_no_newline {s : String} (h : '\n' ∉ trimBoth s.toList) :
    ∃ text place, (Literal.quotes 0).over? text.toList = some place ∧
      (place = .quotes 0 ↔ ¬ Mispaired (trimBoth s.toList)) ∧
      String.join (((Element.docstring s).lines 0).map fun line =>
          line.shown unit depth ++ terminator) =
        repeated unit depth ++ tripleQuote ++ (text ++ tripleQuote ++ terminator) := by
  have htriples : ((Literal.quotes 0).over? (escapeTriples (trimBoth s.toList))).isSome :=
    Literal.over?_escapeTriples (.inl rfl)
  obtain ⟨place, hp, hiff⟩ := Literal.over?_escapeLastQuote htriples
  rw [mispaired_escapeTriples_iff] at hiff
  refine ⟨String.ofList (escapeLastQuote (escapeTriples (trimBoth s.toList))), place, ?_, hiff, ?_⟩
  · rwa [String.toList_ofList]
  · rw [docstring_of_no_newline h, List.map_singleton, String.join_cons, String.join_nil,
      String.append_empty, String.append_assoc, shown_tripleQuote]
    simp only [String.append_assoc]

end Between

/-- The text of a docstring is one literal and the terminator after it, exactly if it goes over
several lines or its backslashes pair up before the end. -/
theorem Element.docstring_ends_iff (s : String) (style : Style) (levels : Nat) (target : String) :
    let w := (Writer.ofStyle style target).indent levels
    ∃ after body, (Element.docstring s).emit (Sink.text : Sink String Empty) w = .done after ∧
      after.target = target ++ (repeated w.unit w.depth ++ tripleQuote ++ body) ∧
      ((Literal.quotes 0).rest? body.toList = some w.terminator.toList ↔
        '\n' ∈ trimBoth s.toList ∨ ¬ Mispaired (trimBoth s.toList)) := by
  intro w
  have hu : Neutral w.unit := neutral_unit style.indent
  have ht : Neutral w.terminator := neutral_terminator style.lineEnding
  have hne : w.terminator ≠ "" := style.lineEnding.terminator_ne_empty
  have hd : w.depth ≤ maxDepth := Nat.min_le_right _ _
  obtain ⟨after, hemit, htarget⟩ :=
    (flat_docstring s).emit_lines (closed_docstring s) (w := w) rfl hne hd
  by_cases hn : '\n' ∈ trimBoth s.toList
  · obtain ⟨text, hover, hjoin⟩ := between_of_newline hu ht hne w.depth hn
    refine ⟨after, text ++ tripleQuote ++ w.terminator, hemit, ?_, ?_⟩
    · rw [htarget, hjoin]
      rfl
    · simp only [hn, true_or, iff_true]
      exact (Literal.rest?_closed_iff hover ht).mpr rfl
  · obtain ⟨text, place, hover, hplace, hjoin⟩ :=
      between_of_no_newline w.unit w.terminator w.depth hn
    refine ⟨after, text ++ tripleQuote ++ w.terminator, hemit, ?_, ?_⟩
    · rw [htarget, hjoin]
      rfl
    · simp only [hn, false_or]
      rw [Literal.rest?_closed_iff hover ht, hplace]

/-- Behind two backslashes a last quote stays bare, and the literal ends one quote early. A single
backslash takes the first closing quote, and the literal never ends. -/
theorem docstring_ends_elsewhere :
    (Element.docstring "a\\\\\"").render .plain = tripleQuote ++ "a\\\\\"\"\"\"\n" ∧
      (Literal.quotes 0).rest? "a\\\\\"\"\"\"\n".toList = some ['"', '\n'] ∧
      (Element.docstring "a\\").render .plain = tripleQuote ++ "a\\\"\"\"\n" ∧
      (Literal.quotes 0).rest? "a\\\"\"\"\n".toList = none := by
  decide +kernel

end Emission

end Stencil
