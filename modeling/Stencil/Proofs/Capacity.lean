import Stencil.Display
import Stencil.Proofs.Layout

/-! Sinks with room for so many bytes. A stream takes bytes as long as there is room, so it ends up
with a stretch of the text that may stop anywhere. A formatter takes a text whole or not at all, so
it ends up with the longest run of texts that fits. Either succeeds exactly if all of it fits. -/

namespace Stencil

variable {σ ε : Type}

section Bytes

theorem toList_loop (bs : ByteArray) (i : Nat) (r : List UInt8) :
    ByteArray.toList.loop bs i r = r.reverse ++ bs.data.toList.drop i := by
  fun_induction ByteArray.toList.loop bs i r with
  | case1 i r h ih =>
    have hi : i < bs.data.toList.length := by simpa using h
    have hget : bs.get! i = bs.data.toList.get ⟨i, hi⟩ := by
      simp [ByteArray.get!, getElem!_pos, h]
    rw [ih, List.reverse_cons, List.append_assoc, List.drop_eq_getElem_cons hi, hget]
    rfl
  | case2 i r h =>
    have hi : bs.data.toList.length ≤ i := by simpa using h
    simp [List.drop_eq_nil_of_le hi]

theorem toList_toUTF8 (s : String) : s.toUTF8.toList = s.toByteArray.data.toList := by
  rw [String.toUTF8_eq_toByteArray, ByteArray.toList, toList_loop]
  rfl

theorem toList_toUTF8_append (s t : String) :
    (s ++ t).toUTF8.toList = s.toUTF8.toList ++ t.toUTF8.toList := by
  simp only [toList_toUTF8, String.toByteArray_append, ByteArray.toList_data_append]

theorem length_toList_toUTF8 (s : String) : s.toUTF8.toList.length = s.utf8ByteSize := by
  rw [toList_toUTF8, ← String.size_toByteArray]
  rfl

end Bytes

section Streams

/-- The room after as many of the bytes were taken as there was room for. -/
def ByteRoom.fill (bytes : List UInt8) (room : ByteRoom) : ByteRoom where
  bytes := room.bytes ++ bytes.take (atMost bytes.length room.left)
  left := room.left.map (· - atMost bytes.length room.left)

variable {stream : Stream}

theorem fits_sub {taken size : Nat} {left : Option Nat} (hsize : taken ≤ size)
    (hleft : ∀ n ∈ left, taken ≤ n) :
    fits (size - taken) (left.map (· - taken)) = fits size left := by
  cases left with
  | none => rfl
  | some n =>
    have hn := hleft n rfl
    simp only [fits, Option.map_some, decide_eq_decide]
    omega

theorem atMost_sub {taken size : Nat} {left : Option Nat} (hsize : taken ≤ size)
    (hleft : ∀ n ∈ left, taken ≤ n) :
    taken + atMost (size - taken) (left.map (· - taken)) = atMost size left := by
  cases left with
  | none =>
    simp only [atMost, Option.map_none]
    omega
  | some n =>
    have hn := hleft n rfl
    simp only [atMost, Option.map_some]
    omega

theorem atMost_le_bound (size : Nat) {bound n : Nat} {left : Option Nat} (h : bound ∈ left)
    (hn : n = atMost size left) : n ≤ bound := by
  cases h
  simp only [atMost] at hn
  omega

/-- Bytes are taken in two steps as they are in one. -/
theorem ByteRoom.fill_fill {taken : Nat} {bytes : List UInt8} {room : ByteRoom}
    (hsize : taken ≤ bytes.length) (hleft : ∀ n ∈ room.left, taken ≤ n) :
    ByteRoom.fill (bytes.drop taken)
      { bytes := room.bytes ++ bytes.take taken, left := room.left.map (· - taken) } =
      room.fill bytes := by
  have hsum := atMost_sub hsize hleft
  simp only [ByteRoom.fill, List.length_drop, ByteRoom.mk.injEq, List.append_assoc,
    ← List.take_add, hsum, Option.map_map, true_and]
  congr 1
  funext n
  simp only [Function.comp_apply]
  omega

theorem ByteRoom.fill_of_atMost_eq_zero {bytes : List UInt8} {room : ByteRoom}
    (h : atMost bytes.length room.left = 0) : room.fill bytes = room := by
  simp [ByteRoom.fill, h]

theorem eq_zero_of_atMost_eq_zero {size : Nat} {left : Option Nat} (hsize : 0 < size)
    (h : atMost size left = 0) : left = some 0 := by
  cases left with
  | none =>
    simp only [atMost] at h
    omega
  | some n =>
    simp only [atMost] at h
    have hn : n = 0 := by omega
    rw [hn]

/-- The portions do not matter, as long as none of them is empty. -/
theorem Stream.takeAll_eq (hp : ∀ n ∈ stream.portion, 1 ≤ n) (bytes : List UInt8)
    (room : ByteRoom) :
    stream.takeAll bytes room =
      if fits bytes.length room.left then .done (room.fill bytes)
      else .failed (.system stream.full) (room.fill bytes) := by
  fun_induction Stream.takeAll stream bytes room with
  | case1 bytes room h =>
    have hlength : bytes.length = 0 := by simpa using h
    have hfits : fits bytes.length room.left = true := by
      cases hl : room.left <;> simp [fits, hlength]
    have hnone : atMost bytes.length room.left = 0 := by
      have hle := atMost_le bytes.length room.left
      omega
    rw [if_pos hfits, ByteRoom.fill_of_atMost_eq_zero hnone]
  | case2 bytes room h taken htaken =>
    have hpos : 0 < bytes.length := List.length_pos_iff.mpr (by simpa using h)
    have hportion : 0 < atMost bytes.length stream.portion := by
      cases hs : stream.portion with
      | none => exact hpos
      | some n =>
        have hn := hp n hs
        simp only [atMost]
        omega
    -- nothing was taken although something was offered
    have hleft : room.left = some 0 := eq_zero_of_atMost_eq_zero hportion htaken
    have hfits : ¬ fits bytes.length room.left = true := by
      simp only [hleft, fits, decide_eq_true_eq]
      omega
    have hnone : atMost bytes.length room.left = 0 := by simp [hleft, atMost]
    rw [if_neg hfits, ByteRoom.fill_of_atMost_eq_zero hnone]
  | case3 bytes room h taken htaken ih =>
    have hsize : taken ≤ bytes.length := Nat.le_trans (atMost_le _ _) (atMost_le _ _)
    have hleft : ∀ n ∈ room.left, taken ≤ n := fun n hn => atMost_le_bound _ hn rfl
    rw [ih, List.length_drop, fits_sub hsize hleft, ByteRoom.fill_fill hsize hleft]

theorem Stream.takeAll_append (hp : ∀ n ∈ stream.portion, 1 ≤ n) (bytes more : List UInt8)
    (room : ByteRoom) :
    stream.takeAll (bytes ++ more) room =
      (stream.takeAll bytes room).andThen (stream.takeAll more) := by
  by_cases hfits : fits bytes.length room.left = true
  · have hsize : bytes.length ≤ (bytes ++ more).length := by simp
    have hleft : ∀ n ∈ room.left, bytes.length ≤ n := by
      intro n hn
      rw [hn] at hfits
      simpa [fits] using hfits
    have hall : atMost bytes.length room.left = bytes.length := by
      cases hl : room.left with
      | none => rfl
      | some n => exact Nat.min_eq_left (hleft n hl)
    have hroom : room.fill bytes =
        { bytes := room.bytes ++ bytes, left := room.left.map (· - bytes.length) } := by
      simp [ByteRoom.fill, hall]
    have hsub := fits_sub hsize hleft
    have hfill := ByteRoom.fill_fill hsize hleft
    rw [List.drop_left, List.take_left] at hfill
    rw [List.length_append, Nat.add_sub_cancel_left] at hsub
    rw [Stream.takeAll_eq hp bytes, if_pos hfits, Outcome.andThen_done, hroom,
      Stream.takeAll_eq hp more, Stream.takeAll_eq hp, hsub, hfill, List.length_append]
  · obtain ⟨n, hl, hn⟩ : ∃ n, room.left = some n ∧ n < bytes.length := by
      cases hl : room.left with
      | none => simp [hl, fits] at hfits
      | some n => exact ⟨n, rfl, by simpa [hl, fits] using hfits⟩
    have hmore : ¬ fits (bytes ++ more).length room.left = true := by
      simp only [hl, fits, List.length_append, decide_eq_true_eq]
      omega
    have hfill : room.fill (bytes ++ more) = room.fill bytes := by
      have hmin : min (bytes.length + more.length) n = n := by omega
      have hmin' : min bytes.length n = n := by omega
      simp only [ByteRoom.fill, hl, atMost, List.length_append, hmin, hmin']
      rw [List.take_append_of_le_length (Nat.le_of_lt hn)]
    rw [Stream.takeAll_eq hp, if_neg hmore, Stream.takeAll_eq hp, if_neg hfits, hfill]
    rfl

theorem Sink.appendAll_stream (hp : ∀ n ∈ stream.portion, 1 ≤ n) (texts : List String)
    (room : ByteRoom) :
    (Sink.stream stream).appendAll texts room =
      stream.takeAll (String.join texts).toUTF8.toList room := by
  induction texts generalizing room with
  | nil =>
    have hnone : (String.join []).toUTF8.toList = [] := by rw [toList_toUTF8]; rfl
    rw [hnone, Stream.takeAll]
    rfl
  | cons s rest ih =>
    have hrest : (Sink.stream stream).appendAll rest =
        stream.takeAll (String.join rest).toUTF8.toList := funext ih
    rw [String.join_cons, toList_toUTF8_append, Stream.takeAll_append hp, ← hrest]
    rfl

/-- What a stream with room for `c` bytes makes of a text. -/
structure Streamed (c : Nat) (text : String) (o : Outcome WriteError ByteRoom) : Prop where
  succeeds : o.error? = none ↔ text.utf8ByteSize ≤ c
  taken : o.state.bytes = text.toUTF8.toList.take (min text.utf8ByteSize c)

theorem streamed_appendAll (hp : ∀ n ∈ stream.portion, 1 ≤ n) (c : Nat) (texts : List String) :
    Streamed c (String.join texts)
      ((Sink.stream stream).appendAll texts { left := some c }) := by
  have hsize := length_toList_toUTF8 (String.join texts)
  have hfill : ∀ bytes : List UInt8, (({ left := some c } : ByteRoom).fill bytes).bytes =
      bytes.take (min bytes.length c) := fun _ => List.nil_append _
  rw [Sink.appendAll_stream hp, Stream.takeAll_eq hp]
  by_cases hle : (String.join texts).utf8ByteSize ≤ c
  · have hfits : fits (String.join texts).toUTF8.toList.length (some c) = true := by
      rw [hsize]
      simpa [fits] using hle
    rw [if_pos hfits]
    exact ⟨iff_of_true rfl hle, by rw [Outcome.state, hfill, hsize]⟩
  · have hfits : ¬ fits (String.join texts).toUTF8.toList.length (some c) = true := by
      rw [hsize]
      simpa [fits] using hle
    rw [if_neg hfits]
    exact ⟨iff_of_false (by simp [Outcome.error?]) hle, by rw [Outcome.state, hfill, hsize]⟩

theorem Sink.appendAll_stream_unbounded (hp : ∀ n ∈ stream.portion, 1 ≤ n) (texts : List String) :
    (Sink.stream stream).appendAll texts {} =
      .done { bytes := (String.join texts).toUTF8.toList } := by
  rw [Sink.appendAll_stream hp, Stream.takeAll_eq hp]
  simp [fits, ByteRoom.fill, atMost]

end Streams

section Formatters

/-- As many of the first texts as fit into `c` bytes. -/
structure LongestFit (c : Nat) (texts : List String) (k : Nat) : Prop where
  within : k ≤ texts.length
  fits : (String.join (texts.take k)).utf8ByteSize ≤ c
  longest : ∀ j ≤ texts.length, (String.join (texts.take j)).utf8ByteSize ≤ c → j ≤ k

theorem longestFit_none {c : Nat} {s : String} (h : ¬ s.utf8ByteSize ≤ c) (rest : List String) :
    LongestFit c (s :: rest) 0 := by
  refine ⟨by simp, by simp, ?_⟩
  intro j _ hj
  cases j with
  | zero => exact Nat.le_refl 0
  | succ j =>
    rw [List.take_succ_cons, String.join_cons, String.utf8ByteSize_append] at hj
    omega

theorem LongestFit.cons {c k : Nat} {s : String} {rest : List String}
    (h : LongestFit (c - s.utf8ByteSize) rest k) (hs : s.utf8ByteSize ≤ c) :
    LongestFit c (s :: rest) (k + 1) := by
  have hfits := h.fits
  have hwithin := h.within
  refine ⟨by simpa using hwithin, ?_, ?_⟩
  · rw [List.take_succ_cons, String.join_cons, String.utf8ByteSize_append]
    omega
  · intro j hj hfit
    cases j with
    | zero => omega
    | succ j =>
      rw [List.take_succ_cons, String.join_cons, String.utf8ByteSize_append] at hfit
      have hle := h.longest j (by simpa using hj) (by omega)
      omega

/-- What a formatter with room for `c` bytes makes of texts that it is offered. -/
structure Formatted (c : Nat) (texts : List String) (o : Outcome WriteError Room) : Prop where
  succeeds : o.error? = none ↔ (String.join texts).utf8ByteSize ≤ c
  kept : ∃ k, LongestFit c texts k ∧ o.state.text = String.join (texts.take k)

theorem Sink.appendAll_formatter (texts : List String) (c : Nat) (held : String) :
    ∃ k, LongestFit c texts k ∧
      (Sink.formatter.appendAll texts { text := held, left := some c }).state.text =
        held ++ String.join (texts.take k) ∧
      ((Sink.formatter.appendAll texts { text := held, left := some c }).error? = none ↔
        k = texts.length) := by
  induction texts generalizing c held with
  | nil =>
    exact ⟨0, ⟨by simp, by simp, by simp⟩, by simp [Sink.appendAll, Outcome.state],
      by simp [Sink.appendAll, Outcome.error?]⟩
  | cons s rest ih =>
    by_cases hs : s.utf8ByteSize ≤ c
    · obtain ⟨k, hk, htext, hdone⟩ := ih (c - s.utf8ByteSize) (held ++ s)
      have hstep : Sink.formatter.appendAll (s :: rest) { text := held, left := some c } =
          Sink.formatter.appendAll rest
            { text := held ++ s, left := some (c - s.utf8ByteSize) } := by
        simp [Sink.appendAll, Sink.formatter, Stencil.fits, hs]
      refine ⟨k + 1, hk.cons hs, ?_, ?_⟩
      · rw [hstep, htext, List.take_succ_cons, String.join_cons, String.append_assoc]
      · rw [hstep, hdone, List.length_cons]
        omega
    · have hstep : Sink.formatter.appendAll (s :: rest) { text := held, left := some c } =
          .failed .format { text := held, left := some c } := by
        simp [Sink.appendAll, Sink.formatter, Stencil.fits, hs]
      exact ⟨0, longestFit_none hs rest, by simp [hstep, Outcome.state],
        by simp [hstep, Outcome.error?]⟩

theorem formatted_appendAll (c : Nat) (texts : List String) :
    Formatted c texts (Sink.formatter.appendAll texts { left := some c }) := by
  obtain ⟨k, hk, htext, hdone⟩ := Sink.appendAll_formatter texts c ""
  refine ⟨?_, k, hk, by simpa using htext⟩
  rw [hdone]
  constructor
  · intro hall
    have hfits := hk.fits
    rwa [hall, List.take_length] at hfits
  · intro hfits
    have hle := hk.longest texts.length (Nat.le_refl _) (by rwa [List.take_length])
    exact Nat.le_antisymm hk.within hle

theorem Sink.appendAll_formatter_unbounded (texts : List String) (held : String) :
    Sink.formatter.appendAll texts { text := held } =
      .done { text := held ++ String.join texts } := by
  induction texts generalizing held with
  | nil => simp [Sink.appendAll]
  | cons s rest ih =>
    have hstep : Sink.formatter.appendAll (s :: rest) { text := held } =
        Sink.formatter.appendAll rest { text := held ++ s } := by
      simp [Sink.appendAll, Sink.formatter, Stencil.fits]
    rw [hstep, ih, String.join_cons, String.append_assoc]

end Formatters

section Appends

theorem Sink.appendAll_text_recorded (texts : List String) :
    (Sink.text : Sink String ε).recorded.appendAll texts ("", []) =
      .done (String.join texts, texts) := by
  have h := Sink.appendAll_recorded [] (Sink.appendAll_text (ε := ε) texts "")
  rwa [String.empty_append, List.nil_append] at h

namespace Element

/-- The text that a writer gives the element on a sink without bounds. -/
def textBy (w : Writer Unit) (e : Element) : String :=
  (e.emit (Sink.text : Sink String Empty) (w.on "")).state.target

/-- The texts that such a sink is offered, one by one. -/
def appendsBy (w : Writer Unit) (e : Element) : List String :=
  (e.emit (Sink.text : Sink String Empty).recorded (w.on ("", []))).state.target.2

theorem emit_appendsBy (e : Element) (w : Writer Unit) :
    String.join (e.appendsBy w) = e.textBy w ∧
      ∀ (σ ε : Type) (out : Sink σ ε) (target : σ),
        (e.emit out (w.on target)).map Writer.target = out.appendAll (e.appendsBy w) target := by
  obtain ⟨texts, after, h⟩ := e.emit_offers w
  have hrecord := (h _ Empty Sink.text.recorded ("", [])).reached
  have htext := (h _ Empty Sink.text "").reached
  rw [Sink.appendAll_text_recorded] at hrecord
  rw [Sink.appendAll_text, String.empty_append] at htext
  have hrecorded := congrArg Outcome.state hrecord
  have hwritten := congrArg Outcome.state htext
  rw [Outcome.state_map] at hrecorded hwritten
  have happends : e.appendsBy w = texts := congrArg Prod.snd hrecorded
  have hjoin : e.textBy w = String.join texts := hwritten
  rw [happends, hjoin]
  exact ⟨rfl, fun σ ε out target => (h σ ε out target).reached⟩

end Element

/-- A writer that has only the module to write does so as if it were told to write it. -/
theorem Module.renderTo_eq (out : Sink σ ε) (m : Module) (target : σ) :
    m.renderTo out target =
      (m.element.emit out (Writer.ofStyle m.style target)).map Writer.target := by
  let w := Writer.ofStyle m.style target
  have hlevel : max Element.flush.rank (Element.registeredRank [m.element]) =
      m.element.rank + 1 := by
    simp [Element.rank, Element.registeredRank]
  have hflush : Element.flush.emit out (w.register m.element) =
      Writer.flushWith (Element.emitAt out m.element.rank) (w.register m.element) := by
    have helements : (w.register m.element).elements = [m.element] := rfl
    rw [Element.emit, helements, hlevel]
    rfl
  have hemit : m.element.emit out w = m.element.emitAt out m.element.rank w := by
    have helements : w.elements = [] := rfl
    rw [Element.emit, helements, Element.registeredRank, Nat.max_zero]
  unfold Module.renderTo
  rw [hflush, hemit]
  have hvisit : Writer.flushWith (Element.emitAt out m.element.rank) (w.register m.element) =
      ((m.element.emitAt out m.element.rank w).andThen .done).map fun v =>
        { v with elements := [m.element] ++ v.elements } := rfl
  rw [hvisit]
  cases m.element.emitAt out m.element.rank w <;> rfl

namespace Displayed

/-- The texts that a sink without bounds is offered, one by one. -/
def appends (d : Displayed) : List String :=
  (d.showTo (Sink.text : Sink String Empty).recorded ("", [])).state.2

theorem showTo_element (e : Element) (style : Style) :
    String.join (e.appendsBy (Writer.ofStyle style ())) = e.render style ∧
      ∀ (σ ε : Type) (out : Sink σ ε) (target : σ),
        (e.emit out (Writer.ofStyle style target)).map Writer.target =
          out.appendAll (e.appendsBy (Writer.ofStyle style ())) target :=
  e.emit_appendsBy (Writer.ofStyle style ())

/-- Whatever is shown, it amounts to texts that are offered one after the other. -/
theorem showTo_eq (d : Displayed) :
    String.join d.appends = d.text ∧
      ∀ (σ ε : Type) (out : Sink σ ε) (target : σ),
        d.showTo out target = out.appendAll d.appends target := by
  suffices htexts : ∃ texts, String.join texts = d.text ∧
      ∀ (σ ε : Type) (out : Sink σ ε) (target : σ),
        d.showTo out target = out.appendAll texts target by
    obtain ⟨texts, hjoin, hshow⟩ := htexts
    have happends : d.appends = texts := by
      rw [appends, hshow, Sink.appendAll_text_recorded]
      rfl
    rw [happends]
    exact ⟨hjoin, hshow⟩
  have hplain : ∀ e : Element, ∃ texts, String.join texts = e.render .plain ∧
      ∀ (σ ε : Type) (out : Sink σ ε) (target : σ),
        e.showTo out target = out.appendAll texts target :=
    fun e => ⟨_, showTo_element e .plain⟩
  cases d with
  | function f => exact hplain f.element
  | classDef c => exact hplain c.element
  | conditional c => exact hplain c.element
  | imports i => exact hplain i.element
  | parameters p => exact ⟨p.shown, rfl, fun _ _ _ _ => rfl⟩
  | module m =>
    obtain ⟨hjoin, hshow⟩ := showTo_element m.element m.style
    refine ⟨_, hjoin, fun σ ε out target => ?_⟩
    rw [showTo, Module.renderTo_eq]
    exact hshow σ ε out target

end Displayed

end Appends

/-- Whatever is written by whatever writer, a sink with room for `c` bytes succeeds exactly if the
text has no more than that. What it holds in the end is the first `c` bytes of the text if it is a
stream, and the longest run of appends that fits if it is a formatter. Without bounds both hold the
text. -/
theorem emission_fits (stream : Stream) (hp : ∀ n ∈ stream.portion, 1 ≤ n) (e : Element)
    (w : Writer Unit) (d : Displayed) (c : Nat) :
    Streamed c (e.textBy w)
        ((e.emit (Sink.stream stream) (w.on { left := some c })).map Writer.target) ∧
      (e.emit (Sink.stream stream) (w.on {})).map Writer.target =
        .done { bytes := (e.textBy w).toUTF8.toList } ∧
      String.join (e.appendsBy w) = e.textBy w ∧
      Formatted c (e.appendsBy w)
        ((e.emit Sink.formatter (w.on { left := some c })).map Writer.target) ∧
      (e.emit Sink.formatter (w.on {})).map Writer.target = .done { text := e.textBy w } ∧
      String.join d.appends = d.text ∧
      Formatted c d.appends (d.showTo Sink.formatter { left := some c }) ∧
      d.showTo Sink.formatter {} = .done { text := d.text } := by
  obtain ⟨hjoin, hemit⟩ := e.emit_appendsBy w
  obtain ⟨hshown, hshow⟩ := d.showTo_eq
  have hstream := hemit _ _ (Sink.stream stream)
  have hformatter := hemit _ _ Sink.formatter
  refine ⟨?_, ?_, hjoin, ?_, ?_, hshown, ?_, ?_⟩
  · rw [hstream, ← hjoin]
    exact streamed_appendAll hp c (e.appendsBy w)
  · rw [hstream, Sink.appendAll_stream_unbounded hp, hjoin]
  · rw [hformatter]
    exact formatted_appendAll c (e.appendsBy w)
  · rw [hformatter, Sink.appendAll_formatter_unbounded, hjoin, String.empty_append]
  · rw [hshow]
    exact formatted_appendAll c d.appends
  · rw [hshow, Sink.appendAll_formatter_unbounded, hshown, String.empty_append]

/-- The room ends within a character, and before the last append of a parameter list. -/
theorem emission_fits_short :
    let stream : Stream := { portion := some 3 }
    let e : Element := .seq [.line "é", .body [] .pass]
    let w : Writer Unit := (Writer.ofStyle { lineEnding := .crlf } ()).indent 1
    let text := "    é\r\n        pass\r\n"
    let d : Displayed := .parameters (({} : Parameters).arg "size")
    (∀ n ∈ stream.portion, 1 ≤ n) ∧
      Streamed 5 text ((e.emit (Sink.stream stream) (w.on { left := some 5 })).map Writer.target) ∧
      (e.emit (Sink.stream stream) (w.on {})).map Writer.target =
        .done { bytes := text.toUTF8.toList } ∧
      String.join (e.appendsBy w) = text ∧
      Formatted 5 (e.appendsBy w)
        ((e.emit Sink.formatter (w.on { left := some 5 })).map Writer.target) ∧
      (e.emit Sink.formatter (w.on {})).map Writer.target = .done { text := text } ∧
      String.join d.appends = "(size)" ∧
      Formatted 5 d.appends (d.showTo Sink.formatter { left := some 5 }) ∧
      d.showTo Sink.formatter {} = .done { text := "(size)" } := by
  intro stream e w text d
  have hp : ∀ n ∈ stream.portion, 1 ≤ n := by simp [stream]
  have htext : e.textBy w = text := by decide +kernel
  have hshown : d.text = "(size)" := by decide +kernel
  have h := emission_fits stream hp e w d 5
  rw [htext, hshown] at h
  exact ⟨hp, h⟩

end Stencil
