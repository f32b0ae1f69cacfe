import Stencil.Comparison
import Stencil.Proofs.Placement

/-! What a report of differences lists. Two texts are compared line by line, and a line that one
of them does not have is compared as if it read `<missing>`. So a line of just this text that the
other side lacks is passed over, and every other difference is listed under its number. -/

namespace Stencil

section Pieces

theorem textPieces_append {s : String} (h : '\n' ∉ s.toList) (t : String) :
    textPieces (s ++ "\n" ++ t) = s :: textPieces t := by
  have hlist : (s ++ "\n" ++ t).toList = s.toList ++ '\n' :: t.toList := by simp
  rw [textPieces, hlist, pieces, splitOn_append_cons, splitOn_of_not_mem h]
  simp [textPieces, pieces]

theorem textPieces_ended {ls : List String} (h : ∀ s ∈ ls, '\n' ∉ s.toList) :
    textPieces (String.join (ls.map (· ++ "\n"))) = ls ++ [""] := by
  induction ls with
  | nil => rfl
  | cons s ls ih =>
    rw [List.forall_mem_cons] at h
    rw [List.map_cons, String.join_cons, textPieces_append h.1, ih h.2, List.cons_append]

/-- The lines determine the text. -/
theorem textPieces_inj {s t : String} : textPieces s = textPieces t ↔ s = t := by
  refine ⟨fun h => ?_, congrArg textPieces⟩
  have hpieces : pieces s.toList = pieces t.toList :=
    (List.map_inj_right fun _ _ => String.ofList_injective).mp h
  have hjoined := congrArg (['\n'].intercalate ·) hpieces
  simp only [pieces, splitOn_eq, List.intercalate_splitOn] at hjoined
  exact String.toList_injective hjoined

end Pieces

section Quoting

theorem mem_toDigitsCore {base : Nat} (hbase : 0 < base) {c : Char} (fuel n : Nat)
    (ds : List Char) (h : c ∈ Nat.toDigitsCore base fuel n ds) :
    c ∈ ds ∨ ∃ d < base, c = Nat.digitChar d := by
  induction fuel generalizing n ds with
  | zero => exact .inl h
  | succ fuel ih =>
    rw [Nat.toDigitsCore] at h
    have hlast : c ∈ Nat.digitChar (n % base) :: ds →
        c ∈ ds ∨ ∃ d < base, c = Nat.digitChar d := by
      intro hc
      rcases List.mem_cons.mp hc with rfl | hc
      · exact .inr ⟨_, Nat.mod_lt n hbase, rfl⟩
      · exact .inl hc
    split at h
    · exact hlast h
    · exact (ih _ _ h).elim hlast .inr

theorem newline_not_mem_toDigits {base : Nat} (hbase : 0 < base) (hle : base ≤ 16) (n : Nat) :
    '\n' ∉ Nat.toDigits base n := by
  have hdigit : ∀ d < 16, Nat.digitChar d ≠ '\n' := by decide
  intro h
  rcases mem_toDigitsCore hbase _ _ _ h with h | ⟨d, hd, h⟩
  · cases h
  · exact hdigit d (Nat.lt_of_lt_of_le hd hle) h.symm

theorem newline_not_mem_quotedChar (c : Char) : '\n' ∉ (quotedChar c).toList := by
  by_cases hc : c = '\n'
  · rw [hc]
    decide
  · unfold quotedChar
    iterate 5
      split
      · decide
    split
    · simpa [hexDigits] using newline_not_mem_toDigits (by decide) (Nat.le_refl 16) c.toNat
    · simpa [eq_comm] using hc

theorem newline_not_mem_quoted (s : String) : '\n' ∉ (quoted s).toList := by
  simp [quoted, newline_not_mem_quotedChar]

end Quoting

/-- The line with this number, where the first line is number 1. -/
def lineAt (s : String) (n : Nat) : Option String :=
  (textPieces s)[n - 1]?

/-- Only one text has such a line, and there it reads as if it were missing. -/
def Concealed (expected actual : String) (n : Nat) : Prop :=
  lineAt expected n = some missingLine ∧ lineAt actual n = none ∨
    lineAt expected n = none ∧ lineAt actual n = some missingLine

def listedLines (expected actual : String) : List Nat :=
  (differences expected actual).map LinePair.number

def reportLines (expected actual : String) (n : Nat) : List String :=
  ["Line " ++ n.repr ++ ":",
    "  expected: " ++ quoted ((lineAt expected n).getD missingLine),
    "  actual:   " ++ quoted ((lineAt actual n).getD missingLine)]

theorem pairLines_eq (n : Nat) (es as : List String) :
    pairLines n es as =
      (List.range (max es.length as.length)).map fun i => ⟨n + i, es[i]?, as[i]?⟩ := by
  fun_induction pairLines n es as with
  | case1 n => rfl
  | case2 n e es ih => simp [ih, List.range_succ_eq_map, Nat.add_assoc, Nat.add_comm 1]
  | case3 n a as ih => simp [ih, List.range_succ_eq_map, Nat.add_assoc, Nat.add_comm 1]
  | case4 n e es a as ih =>
    simp [ih, List.range_succ_eq_map, Nat.add_max_add_right, Nat.add_assoc, Nat.add_comm 1]

section Listing

variable (expected actual : String)

def linePair (n : Nat) : LinePair :=
  ⟨n, lineAt expected n, lineAt actual n⟩

theorem pairLines_textPieces :
    pairLines 1 (textPieces expected) (textPieces actual) =
      (List.range' 1 (max (textPieces expected).length (textPieces actual).length)).map
        (linePair expected actual) := by
  rw [pairLines_eq, List.range'_eq_map_range, List.map_map]
  apply List.map_congr_left
  intro i _
  simp [linePair, lineAt]

theorem listedLines_eq :
    listedLines expected actual =
      (List.range' 1 (max (textPieces expected).length (textPieces actual).length)).filter fun n =>
        (linePair expected actual n).differs := by
  rw [listedLines, differences, pairLines_textPieces, List.filter_map, List.map_map]
  exact List.map_id _

theorem map_linePair_listedLines :
    (listedLines expected actual).map (linePair expected actual) = differences expected actual := by
  rw [listedLines_eq, differences, pairLines_textPieces, List.filter_map]
  rfl

theorem pairwise_listedLines : (listedLines expected actual).Pairwise (· < ·) := by
  rw [listedLines_eq]
  exact List.Pairwise.filter _ List.pairwise_lt_range'

/-- Behind the last line of both texts nothing differs, so the numbers need no bound. -/
theorem mem_listedLines_iff_getD (n : Nat) :
    n ∈ listedLines expected actual ↔
      1 ≤ n ∧ (lineAt expected n).getD missingLine ≠ (lineAt actual n).getD missingLine := by
  have hdiffers : (linePair expected actual n).differs = true ↔
      (lineAt expected n).getD missingLine ≠ (lineAt actual n).getD missingLine := bne_iff_ne
  rw [listedLines_eq, List.mem_filter, hdiffers, List.mem_range'_1]
  constructor
  · rintro ⟨⟨hn, -⟩, h⟩
    exact ⟨hn, h⟩
  · rintro ⟨hn, h⟩
    refine ⟨⟨hn, Nat.lt_of_not_le fun hbeyond => h ?_⟩, h⟩
    have hnone : lineAt expected n = none ∧ lineAt actual n = none := by
      simp only [lineAt, List.getElem?_eq_none_iff]
      omega
    rw [hnone.1, hnone.2]

theorem mem_listedLines_iff (n : Nat) :
    n ∈ listedLines expected actual ↔
      1 ≤ n ∧ lineAt expected n ≠ lineAt actual n ∧ ¬ Concealed expected actual n := by
  rw [mem_listedLines_iff_getD, Concealed]
  cases lineAt expected n with
  | none => cases lineAt actual n <;> simp [eq_comm]
  | some e => cases lineAt actual n <;> simp

/-- Concealed lines are the only ones for which the list falls short. -/
theorem forall_mem_listedLines_iff :
    (∀ n, n ∈ listedLines expected actual ↔ 1 ≤ n ∧ lineAt expected n ≠ lineAt actual n) ↔
      ∀ n, 1 ≤ n → ¬ Concealed expected actual n := by
  constructor
  · intro h n hn hc
    have hne : lineAt expected n ≠ lineAt actual n := by
      rcases hc with ⟨he, ha⟩ | ⟨he, ha⟩ <;> simp [he, ha]
    exact ((mem_listedLines_iff expected actual n).mp ((h n).mpr ⟨hn, hne⟩)).2.2 hc
  · intro h n
    rw [mem_listedLines_iff]
    exact ⟨fun hm => ⟨hm.1, hm.2.1⟩, fun hm => ⟨hm.1, hm.2, h n hm.1⟩⟩

theorem eq_iff_lineAt_eq :
    expected = actual ↔ ∀ n, 1 ≤ n → lineAt expected n = lineAt actual n := by
  refine ⟨fun h n _ => by rw [h], fun h => ?_⟩
  rw [← textPieces_inj]
  apply List.ext_getElem?
  intro i
  exact h (i + 1) (Nat.le_add_left 1 i)

end Listing

section Filling

variable {α : Type} {a : α}

theorem eq_append_replicate {xs ys : List α} (hle : ys.length ≤ xs.length)
    (h : ∀ i : Nat, xs[i]?.getD a = ys[i]?.getD a) :
    xs = ys ++ List.replicate (xs.length - ys.length) a := by
  induction ys generalizing xs with
  | nil =>
    refine List.eq_replicate_iff.mpr ⟨rfl, fun x hx => ?_⟩
    obtain ⟨i, hi, rfl⟩ := List.getElem_of_mem hx
    simpa [hi] using h i
  | cons y ys ih =>
    cases xs with
    | nil => simp at hle
    | cons x xs =>
      have hfirst : x = y := by simpa using h 0
      have hrest := ih (by simpa using hle) fun i => by simpa using h (i + 1)
      rw [hfirst, List.cons_append, List.length_cons, List.length_cons, Nat.add_sub_add_right,
        ← hrest]

theorem getD_append_replicate (xs : List α) (k i : Nat) :
    (xs ++ List.replicate k a)[i]?.getD a = xs[i]?.getD a := by
  rw [List.getElem?_append]
  split
  · rfl
  · next h =>
    rw [List.getElem?_replicate, List.getElem?_eq_none (by omega)]
    split <;> rfl

/-- Two lists agree when both are filled up with `a` without end exactly if some number of `a`
turns one into the other. -/
theorem filled_eq_iff (xs ys : List α) :
    (∀ i : Nat, xs[i]?.getD a = ys[i]?.getD a) ↔
      ∃ k, xs = ys ++ List.replicate k a ∨ ys = xs ++ List.replicate k a := by
  constructor
  · intro h
    rcases Nat.le_total ys.length xs.length with hle | hle
    · exact ⟨_, .inl (eq_append_replicate hle h)⟩
    · exact ⟨_, .inr (eq_append_replicate hle fun i => (h i).symm)⟩
  · rintro ⟨k, rfl | rfl⟩ i
    · exact getD_append_replicate ys k i
    · exact (getD_append_replicate xs k i).symm

end Filling

theorem listedLines_eq_nil_iff (expected actual : String) :
    listedLines expected actual = [] ↔
      ∃ k, textPieces expected = textPieces actual ++ List.replicate k missingLine ∨
        textPieces actual = textPieces expected ++ List.replicate k missingLine := by
  rw [← filled_eq_iff, List.eq_nil_iff_forall_not_mem]
  simp only [mem_listedLines_iff_getD, not_and, ne_eq, Decidable.not_not]
  constructor
  · exact fun h i => h (i + 1) (Nat.le_add_left 1 i)
  · exact fun h n _ => h (n - 1)

theorem newline_not_mem_reportLines {expected actual : String} {n : Nat} {s : String}
    (h : s ∈ reportLines expected actual n) : '\n' ∉ s.toList := by
  have hrepr : '\n' ∉ Nat.toDigits 10 n := newline_not_mem_toDigits (by decide) (by decide) n
  simp only [reportLines, List.mem_cons, List.not_mem_nil, or_false] at h
  rcases h with rfl | rfl | rfl
  · simp [hrepr]
  · simp [newline_not_mem_quoted]
  · simp [newline_not_mem_quoted]

theorem report_linePair (expected actual : String) (n : Nat) :
    (linePair expected actual n).report =
      String.join ((reportLines expected actual n).map (· ++ "\n")) := by
  apply String.toList_injective
  simp [LinePair.report, LinePair.expectedText, LinePair.actualText, linePair, reportLines]

theorem join_report (expected actual : String) (ns : List Nat) :
    String.join ((ns.map (linePair expected actual)).map LinePair.report) =
      String.join ((ns.flatMap (reportLines expected actual)).map (· ++ "\n")) := by
  induction ns with
  | nil => rfl
  | cons n ns ih =>
    rw [List.map_cons, List.map_cons, String.join_cons, report_linePair, ih, List.flatMap_cons,
      List.map_append, String.join_append]

/-- Every listed line takes three lines of the message, whatever the texts contain. -/
theorem textPieces_mismatch (expected actual : String) :
    (mismatch? expected actual).map textPieces =
      if expected = actual then none
      else some ("Content mismatch:" ::
        (listedLines expected actual).flatMap (reportLines expected actual) ++ [""]) := by
  have hplain : ∀ s ∈ "Content mismatch:" ::
      (listedLines expected actual).flatMap (reportLines expected actual), '\n' ∉ s.toList := by
    rw [List.forall_mem_cons]
    refine ⟨by decide, fun s hs => ?_⟩
    obtain ⟨n, -, hn⟩ := List.mem_flatMap.mp hs
    exact newline_not_mem_reportLines hn
  rw [mismatch?]
  split
  · rfl
  · rw [Option.map_some, ← map_linePair_listedLines, join_report, ← textPieces_ended hplain,
      List.map_cons, String.join_cons]
    rfl

/-- There is a report exactly if the texts differ, and then it lists in increasing order the
numbers of the lines that differ or stand on one side only, but for lines that read as if they
were missing. So it is complete exactly if there are no such lines, and it lists nothing exactly if
the longer text goes on with them alone. -/
theorem listed_lines_iff (expected actual : String) :
    (mismatch? expected actual).map textPieces =
        (if expected = actual then none
        else some ("Content mismatch:" ::
          (listedLines expected actual).flatMap (reportLines expected actual) ++ [""])) ∧
      (expected = actual ↔ ∀ n, 1 ≤ n → lineAt expected n = lineAt actual n) ∧
      (listedLines expected actual).Pairwise (· < ·) ∧
      (∀ n, n ∈ listedLines expected actual ↔
        1 ≤ n ∧ lineAt expected n ≠ lineAt actual n ∧ ¬ Concealed expected actual n) ∧
      ((∀ n, n ∈ listedLines expected actual ↔ 1 ≤ n ∧ lineAt expected n ≠ lineAt actual n) ↔
        ∀ n, 1 ≤ n → ¬ Concealed expected actual n) ∧
      (listedLines expected actual = [] ↔
        ∃ k, textPieces expected = textPieces actual ++ List.replicate k missingLine ∨
          textPieces actual = textPieces expected ++ List.replicate k missingLine) :=
  ⟨textPieces_mismatch expected actual, eq_iff_lineAt_eq expected actual,
    pairwise_listedLines expected actual, mem_listedLines_iff expected actual,
    forall_mem_listedLines_iff expected actual, listedLines_eq_nil_iff expected actual⟩

/-- The second line stands on one side only, and the report lists nothing. -/
theorem missing_line_unlisted :
    let expected := "a\n<missing>"
    let actual := "a"
    lineAt expected 2 = some "<missing>" ∧ lineAt actual 2 = none ∧
      listedLines expected actual = [] ∧
      mismatch? expected actual = some "Content mismatch:\n" := by
  intro expected actual
  have hlisted : listedLines expected actual = [] := by
    rw [listedLines_eq]
    decide +kernel
  refine ⟨by decide +kernel, by decide +kernel, hlisted, ?_⟩
  rw [mismatch?, if_neg (by decide), ← map_linePair_listedLines, hlisted]
  rfl

end Stencil
