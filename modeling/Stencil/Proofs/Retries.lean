import Stencil.Proofs.Layout
import Stencil.Sink.Bounded

/-! Writing a text again after the sink has refused a part of it. The line counts as begun once its
indentation is complete, so an attempt that stops within the indentation begins it anew the next
time, and one that stops at the text does not. -/

namespace Stencil

variable {σ ε : Type}

/-- The sink holds a text, which grows by what it accepts. A refusal leaves that text as it is. -/
structure Sink.Retains (out : Sink σ ε) (held : σ → String) : Prop where
  accepted : ∀ s target next, out.append s target = .done next → held next = held target ++ s
  refused : ∀ s target error last, out.append s target = .failed error last →
    held last = held target

theorem Sink.Retains.appendAll {out : Sink σ ε} {held : σ → String} (hout : out.Retains held)
    {texts : List String} {target last : σ} (h : out.appendAll texts target = .done last) :
    held last = held target ++ String.join texts := by
  induction texts generalizing target with
  | nil =>
    cases h
    simp
  | cons s rest ih =>
    cases hs : out.append s target with
    | failed error mark => simp [Sink.appendAll, hs] at h
    | done next =>
      have hrest : out.appendAll rest next = .done last := by
        simpa [Sink.appendAll, hs] using h
      rw [ih hrest, hout.accepted s target next hs, String.join_cons, String.append_assoc]

theorem repeated_add (s : String) (m n : Nat) :
    repeated s (m + n) = repeated s m ++ repeated s n := by
  rw [repeated, ← List.replicate_append_replicate, String.join_append]
  rfl

/-- Once a unit is refused, no longer indentation is accepted. -/
theorem Sink.appendAll_replicate_refused {out : Sink σ ε} {unit : String} {i n : Nat}
    {target middle last : σ} {error : ε}
    (ha : out.appendAll (List.replicate i unit) target = .done middle)
    (hr : out.append unit middle = .failed error last) (hi : i < n) :
    out.appendAll (List.replicate n unit) target = .failed error last := by
  have hsplit : List.replicate n unit =
      List.replicate i unit ++ unit :: List.replicate (n - i - 1) unit := by
    rw [← List.replicate_succ, List.replicate_append_replicate]
    congr 1
    omega
  rw [hsplit]
  exact Sink.appendAll_refused ha hr

theorem Sink.appendAll_replicate_cases (out : Sink σ ε) (unit : String) (n : Nat) (target : σ) :
    (∃ last, out.appendAll (List.replicate n unit) target = .done last) ∨
      ∃ i middle error last, i < n ∧
        out.appendAll (List.replicate i unit) target = .done middle ∧
        out.append unit middle = .failed error last := by
  induction n generalizing target with
  | zero => exact .inl ⟨target, rfl⟩
  | succ n ih =>
    cases hs : out.append unit target with
    | failed error last => exact .inr ⟨0, target, error, last, by omega, rfl, hs⟩
    | done next =>
      rcases ih next with ⟨last, hl⟩ | ⟨i, middle, error, last, hi, ha, hr⟩
      · exact .inl ⟨last, by simpa [List.replicate_succ, Sink.appendAll, hs] using hl⟩
      · refine .inr ⟨i + 1, middle, error, last, by omega, ?_, hr⟩
        simpa [List.replicate_succ, Sink.appendAll, hs] using ha

/-- Where an attempt to write a text was refused. -/
inductive Refusal where
  /-- At a unit of the indentation, behind so many that were accepted. -/
  | indentation (units : Nat)
  | text
deriving DecidableEq

namespace Refusal

def isIndentation : Refusal → Bool
  | indentation _ => true
  | text => false

/-- The units that attempts have left before the line, because they stopped within the
indentation. -/
def units : List Refusal → Nat
  | [] => 0
  | indentation i :: refusals => i + units refusals
  | text :: refusals => units refusals

theorem units_eq_zero_iff (refusals : List Refusal) :
    units refusals = 0 ↔ ∀ i, indentation i ∈ refusals → i = 0 := by
  induction refusals with
  | nil => simp [units]
  | cons refusal refusals ih =>
    cases refusal with
    | text => simp [units, ih]
    | indentation i =>
      simp only [units, Nat.add_eq_zero_iff, ih, List.mem_cons, indentation.injEq]
      constructor
      · rintro ⟨hi, hstops⟩ j (rfl | hj)
        · exact hi
        · exact hstops j hj
      · intro h
        exact ⟨h i (.inl rfl), fun j hj => h j (.inr hj)⟩

end Refusal

namespace Writer

/-- What stands before the next text on the line. -/
def indentation (w : Writer σ) : List String :=
  if w.atLineStart then List.replicate w.depth w.unit else []

/-- The writer after so many attempts to write the text. -/
def attempts (out : Sink σ ε) (s : String) : Nat → Writer σ → Writer σ
  | 0, w => w
  | n + 1, w => attempts out s n (w.write out s).state

theorem pad_eq (out : Sink σ ε) (levels : Nat) (w : Writer σ) :
    w.pad out levels = (out.appendAll (List.replicate levels w.unit) w.target).map w.on := by
  induction levels generalizing w with
  | zero => rfl
  | succ levels ih =>
    simp only [pad, offer, List.replicate_succ, Sink.appendAll]
    cases out.append w.unit w.target with
    | done next => exact ih (w.on next)
    | failed error last => rfl

end Writer

/-- What the sink says to an attempt of this writer: it accepts what comes before the given place
and refuses what stands there. -/
inductive RefusedAt (out : Sink σ ε) (s : String) (w : Writer σ) : Refusal → Prop
  | indentation {i : Nat} {middle last : σ} {error : ε} (hstart : w.atLineStart = true)
      (hi : i < w.depth) (ha : out.appendAll (List.replicate i w.unit) w.target = .done middle)
      (hr : out.append w.unit middle = .failed error last) : RefusedAt out s w (.indentation i)
  | text {middle last : σ} {error : ε} (ha : out.appendAll w.indentation w.target = .done middle)
      (hr : out.append s middle = .failed error last) : RefusedAt out s w .text

theorem RefusedAt.unique {out : Sink σ ε} {s : String} {w : Writer σ} {refusal other : Refusal}
    (h : RefusedAt out s w refusal) (h' : RefusedAt out s w other) : refusal = other := by
  cases h with
  | @indentation i _ _ _ hstart hi ha hr =>
    cases h' with
    | @indentation j _ _ _ _ _ ha' hr' =>
      rcases Nat.lt_trichotomy i j with hlt | rfl | hlt
      · rw [Sink.appendAll_replicate_refused ha hr hlt] at ha'
        cases ha'
      · rfl
      · rw [Sink.appendAll_replicate_refused ha' hr' hlt] at ha
        cases ha
    | text ha' =>
      rw [Writer.indentation, if_pos hstart, Sink.appendAll_replicate_refused ha hr hi] at ha'
      cases ha'
  | text ha =>
    cases h' with
    | indentation hstart hi ha' hr' =>
      rw [Writer.indentation, if_pos hstart, Sink.appendAll_replicate_refused ha' hr' hi] at ha
      cases ha
    | text => rfl

section Attempts

variable {out : Sink σ ε} {held : σ → String} {s : String} {w v : Writer σ}

theorem Writer.openLine_eq_done {middle : σ}
    (h : out.appendAll w.indentation w.target = .done middle) :
    w.openLine out = .done { w with atLineStart := false, target := middle } := by
  unfold Writer.openLine
  by_cases hstart : w.atLineStart = true
  · rw [Writer.indentation, if_pos hstart] at h
    rw [if_pos hstart, Writer.pad_eq, h]
    rfl
  · rw [Writer.indentation, if_neg hstart] at h
    cases h
    have hfalse : w.atLineStart = false := by simpa using hstart
    rw [if_neg hstart, ← hfalse]

theorem Writer.write_cases (out : Sink σ ε) (w : Writer σ) (hs : s ≠ "") :
    (∃ i middle error last, w.atLineStart = true ∧ i < w.depth ∧
        out.appendAll (List.replicate i w.unit) w.target = .done middle ∧
        out.append w.unit middle = .failed error last ∧
        w.write out s = .failed error { w with target := last }) ∨
      (∃ middle error last, out.appendAll w.indentation w.target = .done middle ∧
        out.append s middle = .failed error last ∧
        w.write out s = .failed error { w with atLineStart := false, target := last }) ∨
      ∃ middle last, out.appendAll w.indentation w.target = .done middle ∧
        out.append s middle = .done last ∧
        w.write out s = .done { w with
          atLineStart := false
          written := w.written + s.utf8ByteSize
          target := last } := by
  have hempty : s.isEmpty = false := by simpa using hs
  have hwrite : w.write out s = (w.openLine out).andThen (Writer.offerCounted out s) := by
    simp only [Writer.write, hempty, Bool.false_eq_true, if_false]
  -- all that can go wrong before the text is a unit at the start of a line
  have hopen : (∃ middle, out.appendAll w.indentation w.target = .done middle) ∨
      ∃ i middle error last, w.atLineStart = true ∧ i < w.depth ∧
        out.appendAll (List.replicate i w.unit) w.target = .done middle ∧
        out.append w.unit middle = .failed error last := by
    by_cases hstart : w.atLineStart = true
    · rw [Writer.indentation, if_pos hstart]
      rcases out.appendAll_replicate_cases w.unit w.depth w.target with
        hdone | ⟨i, middle, error, last, hi, ha, hr⟩
      · exact .inl hdone
      · exact .inr ⟨i, middle, error, last, hstart, hi, ha, hr⟩
    · rw [Writer.indentation, if_neg hstart]
      exact .inl ⟨w.target, rfl⟩
  rcases hopen with ⟨middle, ha⟩ | ⟨i, middle, error, last, hstart, hi, ha, hr⟩
  · rw [w.openLine_eq_done ha, Outcome.andThen_done] at hwrite
    cases hr : out.append s middle with
    | failed error last =>
      refine .inr (.inl ⟨middle, error, last, ha, hr, ?_⟩)
      rw [hwrite]
      simp [Writer.offerCounted, Writer.offer, hr]
    | done last =>
      refine .inr (.inr ⟨middle, last, ha, hr, ?_⟩)
      rw [hwrite]
      simp [Writer.offerCounted, Writer.offer, hr]
  · refine .inl ⟨i, middle, error, last, hstart, hi, ha, hr, ?_⟩
    rw [hwrite, Writer.openLine, if_pos hstart, Writer.pad_eq,
      Sink.appendAll_replicate_refused ha hr hi]
    rfl

/-- The units of indentation that the line still needs. -/
def Writer.owed (w : Writer σ) : Nat :=
  if w.atLineStart then w.depth else 0

theorem Writer.join_indentation (w : Writer σ) :
    String.join w.indentation = repeated w.unit w.owed := by
  unfold Writer.indentation Writer.owed
  split <;> rfl

/-- A failed attempt: where it stopped, and what it leaves of the writer. -/
structure Attempt (out : Sink σ ε) (s : String) (before : Writer σ) (refusal : Refusal)
    (after : Writer σ) : Prop where
  refusedAt : ∀ other, RefusedAt out s before other ↔ other = refusal
  atLineStart : after.atLineStart = refusal.isIndentation
  depth : after.depth = before.depth
  written : after.written = before.written

theorem RefusedAt.iff_eq {refusal : Refusal} (h : RefusedAt out s w refusal) (other : Refusal) :
    RefusedAt out s w other ↔ other = refusal := by
  constructor
  · exact fun h' => h'.unique h
  · rintro rfl
    exact h

/-- What is held and what is owed grow together by the units of the attempt. -/
theorem Writer.write_failed (hout : out.Retains held) (hs : s ≠ "") {error : ε}
    (h : w.write out s = .failed error v) :
    ∃ refusal, Attempt out s w refusal v ∧
      v = { w with atLineStart := v.atLineStart, target := v.target } ∧
      held v.target ++ repeated w.unit v.owed =
        held w.target ++ repeated w.unit (Refusal.units [refusal] + w.owed) := by
  rcases w.write_cases out hs with ⟨i, middle, e, last, hstart, hi, ha, hr, hw⟩ |
    ⟨middle, e, last, ha, hr, hw⟩ | ⟨middle, last, ha, hr, hw⟩
  · rw [hw] at h
    cases h
    have hheld := hout.appendAll ha
    refine ⟨.indentation i, ⟨(RefusedAt.indentation hstart hi ha hr).iff_eq, hstart, rfl, rfl⟩,
      rfl, ?_⟩
    simp only [Writer.owed, hstart, if_true, Refusal.units, Nat.add_zero]
    rw [hout.refused _ _ _ _ hr, hheld, repeated_add, String.append_assoc]
    rfl
  · rw [hw] at h
    cases h
    have hheld := hout.appendAll ha
    refine ⟨.text, ⟨(RefusedAt.text ha hr).iff_eq, rfl, rfl, rfl⟩, rfl, ?_⟩
    rw [hout.refused _ _ _ _ hr, hheld, Writer.join_indentation]
    simp [Writer.owed, Refusal.units]
  · rw [hw] at h
    cases h

theorem Writer.write_done (hout : out.Retains held) (hs : s ≠ "") (h : w.write out s = .done v) :
    v = { w with
        atLineStart := false
        written := w.written + s.utf8ByteSize
        target := v.target } ∧
      held v.target = held w.target ++ repeated w.unit w.owed ++ s := by
  rcases w.write_cases out hs with ⟨i, middle, e, last, hstart, hi, ha, hr, hw⟩ |
    ⟨middle, e, last, ha, hr, hw⟩ | ⟨middle, last, ha, hr, hw⟩
  · rw [hw] at h
    cases h
  · rw [hw] at h
    cases h
  · rw [hw] at h
    cases h
    have hheld := hout.appendAll ha
    rw [Writer.join_indentation] at hheld
    exact ⟨rfl, by rw [hout.accepted _ _ _ hr, hheld]⟩

theorem Refusal.units_cons (refusal : Refusal) (refusals : List Refusal) :
    units (refusal :: refusals) = units [refusal] + units refusals := by
  cases refusal <;> simp [units]

/-- Attempts that fail, up to one that succeeds. -/
theorem Writer.attempts_done (hout : out.Retains held) (hs : s ≠ "") {n : Nat}
    (hfails : ∀ k < n, ∃ error u, (w.attempts out s k).write out s = .failed error u)
    (hdone : (w.attempts out s n).write out s = .done v) :
    ∃ refusals : List Refusal, refusals.length = n ∧
      (∀ k refusal, refusals[k]? = some refusal →
        Attempt out s (w.attempts out s k) refusal (w.attempts out s (k + 1))) ∧
      v = { w with
        atLineStart := false
        written := w.written + s.utf8ByteSize
        target := v.target } ∧
      held v.target = held w.target ++ repeated w.unit (Refusal.units refusals + w.owed) ++ s := by
  induction n generalizing w with
  | zero =>
    obtain ⟨hv, hheld⟩ := Writer.write_done hout hs hdone
    have hnone : Refusal.units [] + w.owed = w.owed := Nat.zero_add _
    exact ⟨[], rfl, by simp, hv, by rw [hnone]; exact hheld⟩
  | succ n ih =>
    obtain ⟨error, u, hu⟩ := hfails 0 (Nat.zero_lt_succ n)
    have hu : w.write out s = .failed error u := hu
    obtain ⟨refusal, hattempt, hwriter, hgrowth⟩ := Writer.write_failed hout hs hu
    have hnext : ∀ k, w.attempts out s (k + 1) = u.attempts out s k := by
      intro k
      rw [Writer.attempts, hu]
      rfl
    have hrest : ∀ k < n, ∃ error u', (u.attempts out s k).write out s = .failed error u' := by
      intro k hk
      have h := hfails (k + 1) (by omega)
      rwa [hnext] at h
    rw [hnext] at hdone
    obtain ⟨refusals, hlength, hattempts, hv, hheld⟩ := ih hrest hdone
    have hunit : u.unit = w.unit := by rw [hwriter]
    refine ⟨refusal :: refusals, by simp [hlength], ?_, ?_, ?_⟩
    · intro k other hk
      cases k with
      | zero =>
        simp only [List.getElem?_cons_zero, Option.some.injEq] at hk
        rw [hnext, ← hk]
        exact hattempt
      | succ k =>
        rw [hnext, hnext]
        exact hattempts k other (by simpa using hk)
    · rw [hv, hwriter]
    · have htotal : Refusal.units [refusal] + w.owed + Refusal.units refusals =
          Refusal.units (refusal :: refusals) + w.owed := by
        have hcons := Refusal.units_cons refusal refusals
        omega
      calc held v.target
        _ = held u.target ++ repeated w.unit (u.owed + Refusal.units refusals) ++ s := by
          rw [hheld, hunit, Nat.add_comm]
        _ = held u.target ++ repeated w.unit u.owed
              ++ repeated w.unit (Refusal.units refusals) ++ s := by
          rw [repeated_add, ← String.append_assoc]
        _ = held w.target ++ repeated w.unit (Refusal.units [refusal] + w.owed)
            ++ repeated w.unit (Refusal.units refusals) ++ s := by rw [hgrowth]
        _ = held w.target
              ++ repeated w.unit (Refusal.units (refusal :: refusals) + w.owed) ++ s := by
          rw [← htotal, repeated_add w.unit (Refusal.units [refusal] + w.owed), String.append_assoc,
            String.append_assoc, String.append_assoc, String.append_assoc]

theorem repeated_eq_empty_iff (s : String) (count : Nat) :
    repeated s count = "" ↔ count = 0 ∨ s = "" := by
  cases count with
  | zero => simp
  | succ count =>
    rw [repeated_succ, String.append_eq_empty_iff]
    constructor
    · exact fun h => .inr h.1
    · rintro (h | rfl)
      · omega
      · simp

theorem Writer.write_text (w : Writer String) (hs : s ≠ "") :
    w.write (Sink.text : Sink String ε) s = .done { w with
      atLineStart := false
      written := w.written + s.utf8ByteSize
      target := w.target ++ repeated w.unit w.owed ++ s } := by
  have hempty : s.isEmpty = false := by simpa using hs
  have hopen := w.openLine_eq_done (Sink.appendAll_text (ε := ε) w.indentation w.target)
  rw [Writer.join_indentation] at hopen
  rw [Writer.write, hempty, if_neg Bool.false_ne_true, hopen]
  rfl

/-- A text is written at the start of a line by attempts that fail, up to one that succeeds. Each
attempt that stops within the indentation adds the units that it got to, and nothing else is
written twice. So the outcome is that of one write exactly if these units come to nothing. -/
theorem Writer.write_retried (hout : out.Retains held) (hstart : w.atLineStart = true)
    (hs : s ≠ "") {n : Nat}
    (hfails : ∀ k < n, ∃ error u, (w.attempts out s k).write out s = .failed error u)
    (hdone : (w.attempts out s n).write out s = .done v) :
    ∃ refusals : List Refusal, refusals.length = n ∧
      (∀ k refusal, refusals[k]? = some refusal →
        Attempt out s (w.attempts out s k) refusal (w.attempts out s (k + 1))) ∧
      held v.target = held w.target ++ repeated w.unit (Refusal.units refusals + w.depth) ++ s ∧
      v.written = w.written + s.utf8ByteSize ∧
      (.done (v.on (held v.target)) = (w.on (held w.target)).write (Sink.text : Sink String ε) s ↔
        ∀ i, Refusal.indentation i ∈ refusals → i = 0 ∨ w.unit = "") := by
  obtain ⟨refusals, hlength, hattempts, hv, hheld⟩ := Writer.attempts_done hout hs hfails hdone
  have howed : w.owed = w.depth := if_pos hstart
  rw [howed] at hheld
  refine ⟨refusals, hlength, hattempts, hheld, by rw [hv], ?_⟩
  have hsingle : (w.on (held w.target)).owed = w.depth := if_pos hstart
  have hsame : Outcome.done (v.on (held v.target)) =
        (w.on (held w.target)).write (Sink.text : Sink String ε) s ↔
      held v.target = held w.target ++ repeated w.unit w.depth ++ s := by
    rw [Writer.write_text _ hs, hsingle, hv]
    simp [Writer.on]
  rw [hsame, hheld]
  by_cases hunit : w.unit = ""
  · simp [hunit]
  · have hzero : (∀ i, Refusal.indentation i ∈ refusals → i = 0 ∨ w.unit = "") ↔
        Refusal.units refusals = 0 := by
      simp only [hunit, or_false, Refusal.units_eq_zero_iff]
    rw [hzero]
    constructor
    · intro h
      have hsize := congrArg String.utf8ByteSize h
      simp only [repeated_add, String.utf8ByteSize_append] at hsize
      have hnone : repeated w.unit (Refusal.units refusals) = "" :=
        String.utf8ByteSize_eq_zero_iff.mp (by omega)
      exact ((repeated_eq_empty_iff _ _).mp hnone).resolve_right hunit
    · intro h
      rw [h, Nat.zero_add]

theorem Sink.retains_interrupted (first : Nat) (refused : Option Nat) :
    (Sink.interrupted first refused).Retains Tally.text := by
  constructor
  · intro s target next h
    simp only [Sink.interrupted] at h
    split at h
    · cases h
      rfl
    · cases h
  · intro s target error last h
    simp only [Sink.interrupted] at h
    split at h
    · cases h
    · cases h
      rfl

/-- The first attempt stops at the second unit, the next one at the first, and the third
succeeds. -/
theorem Writer.write_retried_interrupted :
    let out := Sink.interrupted 1 (some 2)
    let w : Writer Tally :=
      { unit := "\t", terminator := "\n", depth := 2, written := 5, target := { text := "a\n" } }
    let v : Writer Tally := { w with
      atLineStart := false
      written := 6
      target := { text := "a\n\t\t\tx", offered := 6 } }
    out.Retains Tally.text ∧
      (∀ k < 2, ∃ error u, (w.attempts out "x" k).write out "x" = .failed error u) ∧
      (w.attempts out "x" 2).write out "x" = .done v ∧
      ∃ refusals : List Refusal, refusals.length = 2 ∧
        (∀ k refusal, refusals[k]? = some refusal →
          Attempt out "x" (w.attempts out "x" k) refusal (w.attempts out "x" (k + 1))) ∧
        v.target.text = w.target.text ++ repeated w.unit (Refusal.units refusals + w.depth) ++ "x" ∧
        v.written = w.written + "x".utf8ByteSize ∧
        (.done (v.on v.target.text) =
            (w.on w.target.text).write (Sink.text : Sink String WriteError) "x" ↔
          ∀ i, Refusal.indentation i ∈ refusals → i = 0 ∨ w.unit = "") := by
  intro out w v
  have hout : out.Retains Tally.text := Sink.retains_interrupted 1 (some 2)
  have hfails : ∀ k < 2, ∃ error u, (w.attempts out "x" k).write out "x" = .failed error u := by
    intro k hk
    have hcases : k = 0 ∨ k = 1 := by omega
    rcases hcases with rfl | rfl
    · exact ⟨_, _, rfl⟩
    · exact ⟨_, _, rfl⟩
  have hdone : (w.attempts out "x" 2).write out "x" = .done v := rfl
  exact ⟨hout, hfails, hdone, Writer.write_retried hout rfl (by decide) hfails hdone⟩

end Attempts

end Stencil
