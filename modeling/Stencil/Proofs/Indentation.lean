import Mathlib.Data.List.Forall2
import Stencil.Proofs.Trim
import Stencil.Style

/-! The texts that stand for an indentation: the word for a tab in any case, and a number of
spaces. The number may have any number of digits. It is read into a byte, which the digits from
left to right never decrease, so it fits at the end exactly if it fits after every digit. -/

namespace Stencil

section Digits

theorem appendDigit_eq_some_iff {n m : UInt8} {c : Char} :
    appendDigit n c = some m ↔
      c.isDigit = true ∧ 10 * n.toNat + (c.toNat - '0'.toNat) = m.toNat := by
  unfold appendDigit
  simp only [Bool.and_eq_true, decide_eq_true_eq, Option.ite_none_right_eq_some,
    Option.some.injEq]
  constructor
  · rintro ⟨⟨hc, hlt⟩, rfl⟩
    exact ⟨hc, (UInt8.toNat_ofNat_of_lt' hlt).symm⟩
  · rintro ⟨hc, he⟩
    rw [he]
    exact ⟨⟨hc, m.toNat_lt_size⟩, UInt8.ofNat_toNat⟩

theorem le_ofDigitChars (digits : List Char) (n : Nat) : n ≤ Nat.ofDigitChars 10 digits n := by
  induction digits generalizing n with
  | nil => exact Nat.le_refl n
  | cons c digits ih =>
    rw [Nat.ofDigitChars_cons]
    have hrest := ih (10 * n + (c.toNat - '0'.toNat))
    omega

/-- Reading digits one by one into a byte fails at no digit exactly if the number that all of
them write fits. -/
theorem foldlM_appendDigit_eq_some_iff {digits : List Char} {n m : UInt8} :
    digits.foldlM appendDigit n = some m ↔
      (∀ c ∈ digits, c.isDigit = true) ∧ Nat.ofDigitChars 10 digits n.toNat = m.toNat := by
  induction digits generalizing n with
  | nil => simp [UInt8.toNat_inj]
  | cons c digits ih =>
    rw [List.foldlM_cons, Nat.ofDigitChars_cons, List.forall_mem_cons]
    constructor
    · intro h
      obtain ⟨next, hnext, hrest⟩ := Option.bind_eq_some_iff.mp h
      obtain ⟨hc, hvalue⟩ := appendDigit_eq_some_iff.mp hnext
      rw [hvalue]
      exact ⟨⟨hc, (ih.mp hrest).1⟩, (ih.mp hrest).2⟩
    · rintro ⟨⟨hc, hdigits⟩, hvalue⟩
      -- the number so far is at most the whole number, so it fits as well
      have hle := le_ofDigitChars digits (10 * n.toNat + (c.toNat - '0'.toNat))
      have hfits : 10 * n.toNat + (c.toNat - '0'.toNat) < UInt8.size :=
        Nat.lt_of_le_of_lt (hvalue ▸ hle) m.toNat_lt_size
      have hnext : appendDigit n c =
          some (UInt8.ofNat (10 * n.toNat + (c.toNat - '0'.toNat))) :=
        appendDigit_eq_some_iff.mpr ⟨hc, (UInt8.toNat_ofNat_of_lt' hfits).symm⟩
      rw [hnext]
      refine ih.mpr ⟨hdigits, ?_⟩
      rw [UInt8.toNat_ofNat_of_lt' hfits]
      exact hvalue

end Digits

/-- One or more ASCII digits that write the number `n`, zeros in front or not. -/
structure IsNumeral (digits : List Char) (n : Nat) : Prop where
  ne_nil : digits ≠ []
  isDigit : ∀ c ∈ digits, c.isDigit = true
  value : Nat.ofDigitChars 10 digits 0 = n

/-- The digits of a number, a plus sign before them or not. -/
def IsSigned (cs : List Char) (n : Nat) : Prop :=
  ∃ sign digits, cs = sign ++ digits ∧ (sign = [] ∨ sign = ['+']) ∧ IsNumeral digits n

theorem IsNumeral.head?_ne {digits : List Char} {n : Nat} (h : IsNumeral digits n) {c : Char}
    (hc : c.isDigit = false) : digits.head? ≠ some c := by
  intro he
  have hdigit := h.isDigit c (List.mem_of_head? he)
  rw [hc] at hdigit
  cases hdigit

theorem foldlM_appendDigit_zero_iff {digits : List Char} {m : UInt8} :
    (if digits.isEmpty then none else digits.foldlM appendDigit 0) = some m ↔
      IsNumeral digits m.toNat := by
  rw [Option.ite_none_left_eq_some, foldlM_appendDigit_eq_some_iff, List.isEmpty_iff]
  exact ⟨fun h => ⟨h.1, h.2.1, h.2.2⟩, fun h => ⟨h.ne_nil, h.isDigit, h.value⟩⟩

theorem readByte_eq_some_iff {cs : List Char} {m : UInt8} :
    readByte cs = some m ↔ IsSigned cs m.toNat := by
  unfold readByte
  split
  · next rest =>
    rw [foldlM_appendDigit_zero_iff]
    constructor
    · exact fun h => ⟨['+'], rest, rfl, .inr rfl, h⟩
    · rintro ⟨sign, digits, he, rfl | rfl, h⟩
      · exact absurd (congrArg List.head? he.symm) (h.head?_ne (by decide))
      · cases he
        exact h
  · next hplain =>
    rw [foldlM_appendDigit_zero_iff]
    constructor
    · exact fun h => ⟨[], cs, rfl, .inl rfl, h⟩
    · rintro ⟨sign, digits, rfl, rfl | rfl, h⟩
      · exact h
      · exact absurd rfl (hplain digits)

theorem readWidth_eq_some_iff {cs : List Char} {n : Nat} :
    readWidth cs = some n ↔ IsSigned cs n ∧ 1 ≤ n ∧ n ≤ 255 := by
  rw [readWidth, Option.filter_eq_some_iff, Option.map_eq_some_iff, decide_eq_true_eq]
  constructor
  · rintro ⟨⟨m, hm, rfl⟩, hpos⟩
    exact ⟨readByte_eq_some_iff.mp hm, hpos, Nat.le_of_lt_succ m.toNat_lt⟩
  · rintro ⟨hsigned, hpos, hle⟩
    have hbyte : (UInt8.ofNat n).toNat = n := UInt8.toNat_ofNat_of_lt' (Nat.lt_succ_of_le hle)
    refine ⟨⟨UInt8.ofNat n, readByte_eq_some_iff.mpr ?_, hbyte⟩, hpos⟩
    rwa [hbyte]

/-- The number of spaces, with the word before it or not. -/
def IsWidth (cs : List Char) (n : Nat) : Prop :=
  ∃ word rest, cs = word ++ rest ∧ (word = [] ∨ word = "spaces".toList) ∧ IsSigned rest n ∧
    1 ≤ n ∧ n ≤ 255

theorem IsSigned.head?_ne {cs : List Char} {n : Nat} (h : IsSigned cs n) {c : Char}
    (hc : c.isDigit = false) (hplus : c ≠ '+') : cs.head? ≠ some c := by
  obtain ⟨sign, digits, rfl, rfl | rfl, hdigits⟩ := h
  · exact hdigits.head?_ne hc
  · exact fun he => hplus (Option.some.inj he).symm

theorem readWidth_dropWord_iff {cs : List Char} {n : Nat} :
    readWidth (dropWord "spaces".toList cs) = some n ↔ IsWidth cs n := by
  rw [readWidth_eq_some_iff, dropWord]
  constructor
  · split
    · next hword =>
      intro h
      obtain ⟨rest, rfl⟩ := List.isPrefixOf_iff_prefix.mp hword
      rw [List.drop_left] at h
      exact ⟨_, rest, rfl, .inr rfl, h⟩
    · exact fun h => ⟨[], cs, rfl, .inl rfl, h⟩
  · rintro ⟨word, rest, rfl, rfl | rfl, h⟩
    · -- neither a sign nor a digit begins the word
      have hword : ¬ "spaces".toList.isPrefixOf rest = true := by
        intro hp
        obtain ⟨more, rfl⟩ := List.isPrefixOf_iff_prefix.mp hp
        exact h.1.head?_ne (c := 's') (by decide) (by decide) rfl
      rw [List.nil_append, if_neg hword]
      exact h
    · rw [if_pos (List.isPrefixOf_iff_prefix.mpr (List.prefix_append _ _)), List.drop_left]
      exact h

section Letters

theorem toNat_toLower (c : Char) :
    c.toLower.toNat = if 65 ≤ c.toNat ∧ c.toNat ≤ 90 then c.toNat + 32 else c.toNat := by
  unfold Char.toLower
  split
  · next h =>
    have hrange : 65 ≤ c.toNat ∧ c.toNat ≤ 90 := h
    have hadd : (c.val + 32).toNat = (c.toNat + 32) % 2 ^ 32 := UInt32.toNat_add c.val 32
    rw [if_pos hrange]
    exact hadd.trans (Nat.mod_eq_of_lt (by omega))
  · next h =>
    have hrange : ¬ (65 ≤ c.toNat ∧ c.toNat ≤ 90) := h
    rw [if_neg hrange]

theorem toNat_toUpper (c : Char) :
    c.toUpper.toNat = if 97 ≤ c.toNat ∧ c.toNat ≤ 122 then c.toNat - 32 else c.toNat := by
  unfold Char.toUpper
  split
  · next h =>
    have hrange : 97 ≤ c.toNat ∧ c.toNat ≤ 122 := h
    -- the difference of the two cases is negative, so the sum wraps around
    have hadd : (c.val + 4294967264).toNat = (c.toNat + 4294967264) % 2 ^ 32 :=
      UInt32.toNat_add c.val 4294967264
    rw [if_pos hrange]
    refine hadd.trans ?_
    omega
  · next h =>
    have hrange : ¬ (97 ≤ c.toNat ∧ c.toNat ≤ 122) := h
    rw [if_neg hrange]

theorem toLower_eq_iff {c letter : Char} (h : letter.isLower = true) :
    c.toLower = letter ↔ c = letter ∨ c = letter.toUpper := by
  have hletter : 97 ≤ letter.toNat ∧ letter.toNat ≤ 122 := by
    obtain ⟨hlow, hhigh⟩ := Bool.and_eq_true_iff.mp h
    exact ⟨of_decide_eq_true hlow, of_decide_eq_true hhigh⟩
  rw [← Char.toNat_inj, ← Char.toNat_inj, ← Char.toNat_inj, toNat_toLower, toNat_toUpper,
    if_pos hletter]
  split <;> omega

/-- The letters of a word, each in lower case or in upper case. -/
def InAnyCase (word cs : List Char) : Prop :=
  List.Forall₂ (fun letter c => c = letter ∨ c = letter.toUpper) word cs

theorem map_toLower_eq_iff {word cs : List Char} (h : word.all Char.isLower = true) :
    cs.map Char.toLower = word ↔ InAnyCase word cs := by
  induction word generalizing cs with
  | nil => simp [InAnyCase]
  | cons letter word ih =>
    rw [List.all_cons, Bool.and_eq_true] at h
    cases cs with
    | nil => simp [InAnyCase]
    | cons c cs =>
      rw [List.map_cons, List.cons.injEq, toLower_eq_iff h.1, ih h.2, InAnyCase, InAnyCase,
        List.forall₂_cons]

theorem InAnyCase.head? {letter : Char} {word cs : List Char} (h : InAnyCase (letter :: word) cs) :
    cs.head? = some letter ∨ cs.head? = some letter.toUpper := by
  cases h with
  | cons hfirst _ => simpa using hfirst

end Letters

/-- The word for a tab, in the singular or in the plural. -/
def IsTab (cs : List Char) : Prop :=
  InAnyCase "tab".toList cs ∨ InAnyCase "tabs".toList cs

theorem lower_eq_tab_iff {cs : List Char} :
    (cs.map Char.toLower = "tab".toList || cs.map Char.toLower = "tabs".toList) = true ↔
      IsTab cs := by
  rw [Bool.or_eq_true, decide_eq_true_eq, decide_eq_true_eq, map_toLower_eq_iff (by decide),
    map_toLower_eq_iff (by decide), IsTab]

theorem IsTab.head? {cs : List Char} (h : IsTab cs) :
    cs.head? = some 't' ∨ cs.head? = some 'T' := by
  rcases h with h | h
  · have hletters : InAnyCase ('t' :: ['a', 'b']) cs := h
    exact hletters.head?
  · have hletters : InAnyCase ('t' :: ['a', 'b', 's']) cs := h
    exact hletters.head?

theorem IsWidth.not_isTab {cs : List Char} {n : Nat} (h : IsWidth cs n) : ¬ IsTab cs := by
  obtain ⟨word, rest, rfl, rfl | rfl, hrest, -⟩ := h
  · intro ht
    rcases ht.head? with hfirst | hfirst
    · exact hrest.head?_ne (c := 't') (by decide) (by decide) hfirst
    · exact hrest.head?_ne (c := 'T') (by decide) (by decide) hfirst
  · intro ht
    rcases ht.head? with hfirst | hfirst <;> simp at hfirst

namespace Indent

theorem parse_of_isTab {s : String} (h : IsTab (trim s).toList) : parse s = .ok .tab := by
  rw [toList_trim] at h
  exact if_pos (lower_eq_tab_iff.mpr h)

theorem parse_of_isWidth {s : String} {n : Nat} (h : IsWidth (trim s).toList n) :
    parse s = .ok (.spaces n) := by
  have htab := h.not_isTab
  rw [toList_trim] at h htab
  simp only [parse, lower_eq_tab_iff, htab, if_false, readWidth_dropWord_iff.mpr h]

theorem parse_of_neither {s : String} (htab : ¬ IsTab (trim s).toList)
    (hwidth : ∀ n, ¬ IsWidth (trim s).toList n) : parse s = .error (.indent (trim s)) := by
  rw [toList_trim] at htab
  have hnone : readWidth (dropWord "spaces".toList (trimBoth s.toList)) = none := by
    rw [Option.eq_none_iff_forall_ne_some]
    intro n hn
    rw [toList_trim] at hwidth
    exact hwidth n (readWidth_dropWord_iff.mp hn)
  simp only [parse, lower_eq_tab_iff, htab, if_false, hnone, trim]

theorem parse_cases (s : String) :
    (IsTab (trim s).toList ∧ parse s = .ok .tab) ∨
      (∃ n, IsWidth (trim s).toList n ∧ parse s = .ok (.spaces n)) ∨
      (¬ IsTab (trim s).toList ∧ (∀ n, ¬ IsWidth (trim s).toList n) ∧
        parse s = .error (.indent (trim s))) := by
  by_cases htab : IsTab (trim s).toList
  · exact .inl ⟨htab, parse_of_isTab htab⟩
  · by_cases hwidth : ∃ n, IsWidth (trim s).toList n
    · obtain ⟨n, hn⟩ := hwidth
      exact .inr (.inl ⟨n, hn, parse_of_isWidth hn⟩)
    · rw [not_exists] at hwidth
      exact .inr (.inr ⟨htab, hwidth, parse_of_neither htab hwidth⟩)

theorem parse_eq_tab_iff (s : String) : parse s = .ok .tab ↔ IsTab (trim s).toList := by
  refine ⟨fun h => ?_, parse_of_isTab⟩
  rcases parse_cases s with ⟨htab, -⟩ | ⟨n, -, hn⟩ | ⟨-, -, herror⟩
  · exact htab
  · rw [h] at hn
    cases hn
  · rw [h] at herror
    cases herror

theorem parse_eq_spaces_iff (s : String) (n : Nat) :
    parse s = .ok (.spaces n) ↔ IsWidth (trim s).toList n := by
  refine ⟨fun h => ?_, parse_of_isWidth⟩
  rcases parse_cases s with ⟨-, htab⟩ | ⟨m, hm, heq⟩ | ⟨-, -, herror⟩
  · rw [h] at htab
    cases htab
  · rw [h] at heq
    cases heq
    exact hm
  · rw [h] at herror
    cases herror

theorem parse_eq_error_iff (s : String) (error : StyleError) :
    parse s = .error error ↔
      error = .indent (trim s) ∧ ¬ IsTab (trim s).toList ∧ ∀ n, ¬ IsWidth (trim s).toList n := by
  constructor
  · intro h
    rcases parse_cases s with ⟨-, htab⟩ | ⟨m, -, heq⟩ | ⟨htab, hwidth, herror⟩
    · rw [h] at htab
      cases htab
    · rw [h] at heq
      cases heq
    · rw [h] at herror
      cases herror
      exact ⟨rfl, htab, hwidth⟩
  · rintro ⟨rfl, htab, hwidth⟩
    exact parse_of_neither htab hwidth

theorem isBlank_eq_false_of_isDigit {c : Char} (h : c.isDigit = true) :
    isBlank c = false := by
  have hdigit : 48 ≤ c.toNat ∧ c.toNat ≤ 57 := by
    obtain ⟨hlow, hhigh⟩ := Bool.and_eq_true_iff.mp h
    exact ⟨of_decide_eq_true hlow, of_decide_eq_true hhigh⟩
  simp [isBlank, CodePoints.has, blankRanges]
  omega

theorem isNumeral_repr (n : Nat) : IsNumeral n.repr.toList n := by
  rw [Nat.toList_repr]
  exact ⟨Nat.toDigits_ne_nil, fun c hc => Nat.isDigit_of_mem_toDigits (by decide) (by decide) hc,
    Nat.ofDigitChars_toDigits (by decide) (by decide)⟩

theorem tight_name_spaces (n : Nat) : Tight (name (.spaces n)).toList := by
  have hname : (name (.spaces n)).toList = "spaces".toList ++ n.repr.toList := String.toList_append
  have hdigits : IsNumeral n.repr.toList n := isNumeral_repr n
  rw [hname]
  constructor
  · intro c hc
    have hfirst : c = 's' := (Option.some.inj hc).symm
    rw [hfirst]
    decide
  · intro c hc
    rw [List.getLast?_append_of_ne_nil _ hdigits.ne_nil] at hc
    exact isBlank_eq_false_of_isDigit (hdigits.isDigit c (List.mem_of_getLast? hc))

theorem parse_name_spaces {n : Nat} (hpos : 1 ≤ n) (hle : n ≤ 255) :
    parse (name (.spaces n)) = .ok (.spaces n) := by
  have htrim : (trim (name (.spaces n))).toList = "spaces".toList ++ n.repr.toList := by
    rw [toList_trim, trimBoth_eq_self (tight_name_spaces n)]
    exact String.toList_append
  apply parse_of_isWidth
  rw [htrim]
  exact ⟨_, _, rfl, .inr rfl, ⟨[], _, rfl, .inl rfl, isNumeral_repr n⟩, hpos, hle⟩

/-- What is read has a name that is read back, and a unit of spaces or of one tab. -/
theorem name_and_unit_of_parse {s : String} {i : Indent} (h : parse s = .ok i) :
    parse i.name = .ok i ∧
      (i = .tab ∧ i.unit = "\t" ∨
        ∃ n, 1 ≤ n ∧ n ≤ 255 ∧ i = .spaces n ∧ i.unit.toList = List.replicate n ' ') := by
  cases i with
  | tab => exact ⟨by decide +kernel, .inl ⟨rfl, rfl⟩⟩
  | spaces n =>
    obtain ⟨_, _, -, -, -, hpos, hle⟩ := (parse_eq_spaces_iff s n).mp h
    exact ⟨parse_name_spaces hpos hle, .inr ⟨n, hpos, hle, rfl, String.toList_ofList⟩⟩

/-- The texts that are read as an indentation, and what is made of them. Every other text is
refused with what is left of it without the white space around. -/
theorem parse_grammar (s : String) :
    (parse s = .ok .tab ↔ IsTab (trim s).toList) ∧
      (∀ n, parse s = .ok (.spaces n) ↔ IsWidth (trim s).toList n) ∧
      (∀ error, parse s = .error error ↔
        error = .indent (trim s) ∧ ¬ IsTab (trim s).toList ∧ ∀ n, ¬ IsWidth (trim s).toList n) ∧
      ∀ i, parse s = .ok i → parse i.name = .ok i ∧
        (i = .tab ∧ i.unit = "\t" ∨
          ∃ n, 1 ≤ n ∧ n ≤ 255 ∧ i = .spaces n ∧ i.unit.toList = List.replicate n ' ') :=
  ⟨parse_eq_tab_iff s, parse_eq_spaces_iff s, parse_eq_error_iff s,
    fun _ => name_and_unit_of_parse⟩

/-- A sign, zeros in front and white space around. -/
theorem parse_grammar_padded :
    let s := " spaces+0012\n"
    parse s = .ok (.spaces 12) ∧ IsWidth (trim s).toList 12 ∧
      parse (Indent.spaces 12).name = .ok (.spaces 12) := by
  intro s
  have hparse : parse s = .ok (.spaces 12) := by decide +kernel
  obtain ⟨-, hspaces, -, hname⟩ := parse_grammar s
  exact ⟨hparse, (hspaces 12).mp hparse, (hname _ hparse).1⟩

end Indent

end Stencil
