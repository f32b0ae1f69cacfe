import Stencil.Proofs.Silence

/-! The bodies of blocks. The children of a block stand one level deeper than its header, and
where all of them are silent the placeholder stands in their place; the line is ended after
them either way. -/

namespace Stencil

variable {σ ε : Type}

section Emission

variable {out : Sink σ ε}

theorem Outcome.andThen_assoc {α : Type} (o : Outcome ε α) (f g : α → Outcome ε α) :
    (o.andThen f).andThen g = o.andThen fun a => (f a).andThen g := by
  cases o <;> rfl

theorem Element.runAll_singleton {flush : Writer σ → Outcome ε (Writer σ)} (e : Element)
    (w : Writer σ) : Element.runAll out flush [e] w = e.run out flush w := by
  rw [Element.runAll]
  cases e.run out flush w <;> rfl

theorem Element.runAll_append {flush : Writer σ → Outcome ε (Writer σ)} (xs ys : List Element)
    (w : Writer σ) : Element.runAll out flush (xs ++ ys) w =
      (Element.runAll out flush xs w).andThen (Element.runAll out flush ys) := by
  induction xs generalizing w with
  | nil => rfl
  | cons e xs ih =>
    simp only [List.cons_append, Element.runAll, Outcome.andThen_assoc]
    congr 1
    funext v
    exact ih v

theorem Element.runAll_congr {flush flush' : Writer σ → Outcome ε (Writer σ)} {es : List Element}
    (h : ∀ e ∈ es, ∀ w, e.run out flush w = e.run out flush' w) (w : Writer σ) :
    Element.runAll out flush es w = Element.runAll out flush' es w := by
  induction es generalizing w with
  | nil => rfl
  | cons e es ih =>
    simp only [Element.runAll, h e (by simp)]
    congr 1
    funext v
    exact ih (fun a ha => h a (by simp [ha])) v

/-- A plain element has nothing flushed. -/
theorem Element.Plain.run_congr {e : Element} (h : e.Plain)
    (flush flush' : Writer σ → Outcome ε (Writer σ)) (w : Writer σ) :
    e.run out flush w = e.run out flush' w := by
  induction h generalizing w with
  | text s => rfl
  | lineFeed => rfl
  | freshLine => rfl
  | seq _ ih => exact Element.runAll_congr ih w
  | indented _ ih => simp only [Element.run, Element.runAll_congr ih]
  | body _ ih =>
    have hpass : ∀ v, Element.pass.run out flush v = Element.pass.run out flush' v := fun _ => rfl
    simp only [Element.run, Element.runAll_congr ih, hpass]

theorem Element.Plain.emit_eq {e : Element} (h : e.Plain)
    (flush : Writer σ → Outcome ε (Writer σ)) (w : Writer σ) :
    e.emit out w = e.run out flush w := by
  obtain ⟨inner, he⟩ := e.emit_eq_run out w
  rw [he]
  exact h.run_congr inner flush w

/-- What a sink that refuses nothing is given can be read off a text. -/
theorem Element.emit_of_text (hout : ∀ s target, ∃ last, out.append s target = .done last)
    {e : Element} {w : Writer σ} {x : Writer String}
    (h : e.emit (Sink.text : Sink String ε) (w.on "") = .done x) :
    ∃ texts last, String.join texts = x.target ∧ out.appendAll texts w.target = .done last ∧
      e.emit out w = .done (x.on last) := by
  obtain ⟨texts, after, hoffers⟩ := e.emit_offers (w.on ())
  obtain ⟨last, hlast⟩ := Sink.appendAll_done hout texts w.target
  have htext : e.emit (Sink.text : Sink String ε) (w.on "") =
      .done (after.on ("" ++ String.join texts)) :=
    (hoffers String ε Sink.text "").done_iff.mp (Sink.appendAll_text texts "")
  have hafter : x = after.on ("" ++ String.join texts) := by
    rw [htext] at h
    exact (Outcome.done.inj h).symm
  refine ⟨texts, last, ?_, hlast, ?_⟩
  · rw [hafter]
    exact (String.empty_append).symm
  · rw [hafter]
    exact (hoffers σ ε out w.target).done_iff.mp hlast

/-- A plain element that begins a line leaves its page, and the writer at the end of it. -/
theorem Element.Plain.emit_done {e : Element} (h : e.Plain)
    (hout : ∀ s target, ∃ last, out.append s target = .done last) {w : Writer σ}
    (hs : w.atLineStart = true) (ht : w.terminator ≠ "") (hd : w.depth + e.height ≤ maxDepth) :
    ∃ texts last, String.join texts = e.page.shown w.unit w.terminator w.depth ∧
      out.appendAll texts w.target = .done last ∧
      e.emit out w = .done { w with
        target := last
        atLineStart := e.page.current.isNone
        written := w.written + e.page.size w.terminator } := by
  have htext : e.emit (Sink.text : Sink String ε) (w.on "") = .done (e.page.onto (w.on "") 0) :=
    h.emit_text hs ht hd
  obtain ⟨texts, last, hjoin, hlast, hemit⟩ := Element.emit_of_text hout htext
  refine ⟨texts, last, ?_, hlast, hemit⟩
  rw [hjoin]
  exact String.empty_append

end Emission

section Body

variable {out : Sink σ ε} {children : List Element} {v : Writer σ}

theorem Element.shown_page_pass (unit terminator : String) (depth : Nat) :
    Element.pass.page.shown unit terminator depth =
      repeated unit depth ++ "pass" ++ terminator := by
  have hpage : Element.pass.page = { ended := [⟨0, "pass"⟩] } := rfl
  rw [hpage]
  simp [Page.shown, Line.shown, String.append_assoc]

theorem Element.size_page_pass (terminator : String) :
    Element.pass.page.size terminator = 4 + terminator.utf8ByteSize := by
  rw [Page.size, shown_page_pass, String.utf8ByteSize_append, repeated_empty]
  rfl

theorem Writer.depth_indent_one {d : Nat} (hv : v.depth = d) (hd : d + 1 ≤ maxDepth) :
    (v.indent 1).depth = d + 1 := by
  rw [Writer.indent, hv]
  exact Nat.min_eq_left hd

theorem Element.emit_body_of_silent (hc : ∀ e ∈ children, e.Silent)
    (hp : ∀ e ∈ children, e.Plain)
    (hout : ∀ s target, ∃ last, out.append s target = .done last)
    (hs : v.atLineStart = true) (ht : v.terminator ≠ "") (hd : v.depth + 1 ≤ maxDepth) :
    (Element.seq children).emit out (v.indent 1) = .done (v.indent 1) ∧
      ∃ texts last, String.join texts = repeated v.unit (v.depth + 1) ++ "pass" ++ v.terminator ∧
        out.appendAll texts v.target = .done last ∧
        (Element.body children .pass).emit out v = .done { v with
          target := last
          written := v.written + (4 + v.terminator.utf8ByteSize) } := by
  have hchildren : Element.runAll out .done children (v.indent 1) = .done (v.indent 1) :=
    Element.runAll_eq_done fun e he => (hc e he).run_eq hs
  have hdepth := Writer.depth_indent_one (v := v) rfl hd
  have hflat : Element.pass.Flat := Element.flat_line "pass"
  have hheight : (v.indent 1).depth + Element.pass.height ≤ maxDepth := by
    rw [hflat.height, hdepth]
    exact hd
  obtain ⟨texts, last, hjoin, hlast, hemit⟩ :=
    hflat.plain.emit_done hout (w := v.indent 1) hs ht hheight
  rw [hflat.plain.emit_eq .done, Element.size_page_pass] at hemit
  rw [Element.shown_page_pass, hdepth] at hjoin
  refine ⟨((Element.Plain.seq hp).emit_eq .done _).trans hchildren, texts, last, hjoin, hlast, ?_⟩
  have hwritten : (v.indent 1).written = v.written := rfl
  have hback : (v.indent 1).depth - 1 = v.depth := by
    rw [hdepth]
    rfl
  have hended : Element.pass.page.current.isNone = true := rfl
  rw [(Element.Plain.body hp).emit_eq .done, Element.run, hchildren, Outcome.andThen_done,
    if_pos hwritten, hemit, Outcome.map_done, Outcome.andThen_done, Writer.dedent]
  simp only [Writer.freshLine, hended, if_true, hback, hs]
  rfl

theorem Writer.freshLine_done (hout : ∀ s target, ∃ last, out.append s target = .done last)
    (w : Writer σ) :
    ∃ last,
      (if w.atLineStart then last = w.target else out.append w.terminator w.target = .done last) ∧
      w.freshLine out = .done { w with
        target := last
        atLineStart := true
        written := if w.atLineStart then w.written
          else w.written + w.terminator.utf8ByteSize } := by
  by_cases hs : w.atLineStart = true
  · refine ⟨w.target, by rw [if_pos hs], ?_⟩
    simp only [Writer.freshLine, hs, if_true]
    rw [← hs]
  · obtain ⟨last, hlast⟩ := hout w.terminator w.target
    refine ⟨last, by rwa [if_neg hs], ?_⟩
    simp only [Writer.freshLine, hs, if_false, Writer.lineFeed, Writer.offerCounted, Writer.offer,
      hlast, Outcome.map_done, Outcome.andThen_done, Bool.false_eq_true]

/-- Children that are not all silent count, so no placeholder follows them. -/
theorem Element.emit_body_of_not_silent (hb : ∀ e ∈ children, e.Built)
    (hc : ¬ ∀ e ∈ children, e.Silent)
    (hout : ∀ s target, ∃ last, out.append s target = .done last)
    (hs : v.atLineStart = true) (ht : v.terminator ≠ "")
    (hd : v.depth + (Element.heightAll children + 1) ≤ maxDepth) :
    ∃ inner last,
      (Element.seq children).emit out (v.indent 1) = .done inner ∧ v.written < inner.written ∧
      (if inner.atLineStart then last = inner.target
        else out.append v.terminator inner.target = .done last) ∧
      (Element.body children .pass).emit out v = .done { v with
        target := last
        written := if inner.atLineStart then inner.written
          else inner.written + v.terminator.utf8ByteSize } := by
  have hp : ∀ e ∈ children, e.Plain := fun e he => (hb e he).plain
  have hseq : (Element.seq children).Plain := .seq hp
  have hdepth := Writer.depth_indent_one (v := v) rfl (by omega)
  have hheight : (v.indent 1).depth + (Element.seq children).height ≤ maxDepth := by
    rw [hdepth, Element.height]
    omega
  obtain ⟨texts, target, -, -, hemit⟩ :=
    hseq.emit_done hout (w := v.indent 1) hs ht hheight
  -- on a page that stays blank every child would be silent
  have hpage : (Element.seq children).page ≠ .blank := fun hblank =>
    hc fun e he => (hb e he).silent_of_lay_eq (Element.lay_eq_self_of_layAll hp hblank e he)
  have hsize : 0 < (Element.seq children).page.size v.terminator := by
    rcases hseq.extends_lay ht 0 .blank with hblank | hlt
    · exact absurd hblank hpage
    · exact Nat.lt_of_le_of_lt (Nat.zero_le _) hlt
  obtain ⟨inner, hinner⟩ : ∃ inner : Writer σ, inner = { v.indent 1 with
      target := target
      atLineStart := (Element.seq children).page.current.isNone
      written := v.written + (Element.seq children).page.size v.terminator } := ⟨_, rfl⟩
  have hwritten : v.written < inner.written := by
    rw [hinner]
    exact Nat.lt_add_of_pos_right hsize
  have hrun : Element.runAll out .done children (v.indent 1) = .done inner := by
    rw [hinner]
    exact (hseq.emit_eq .done _).symm.trans hemit
  obtain ⟨last, hlast, hfresh⟩ := Writer.freshLine_done hout (inner.dedent 1)
  have hback : inner.depth - 1 = v.depth := by
    rw [hinner]
    exact congrArg (· - 1) hdepth
  refine ⟨inner, last, (hseq.emit_eq .done _).trans hrun, hwritten, ?_, ?_⟩
  · rw [hinner] at hlast ⊢
    exact hlast
  · have hne : ¬ inner.written = v.written := by omega
    rw [(Element.Plain.body hp).emit_eq .done, Element.run, hrun, Outcome.andThen_done, if_neg hne,
      Outcome.map_done, Outcome.andThen_done, hfresh, Writer.dedent, hback, hs]
    rw [hinner]
    rfl

end Body

/-- Code with a header and a body. The branches of a conditional are a chain of blocks. -/
inductive Block where
  | functionDef (f : Function)
  | classDef (c : Class)
  | conditional (keyword : String) (c : Conditional)
  | otherwise (body : List Element)

namespace Block

def element : Block → Element
  | functionDef f => f.element
  | classDef c => c.element
  | conditional keyword c => c.elementAs keyword
  | otherwise body => otherwiseElement body

def header : Block → Element
  | functionDef f => f.header
  | classDef c => c.header
  | conditional keyword c =>
    .seq [.text keyword, .text " ", c.first.condition, .text ":", .lineFeed]
  | otherwise _ => .line "else:"

def children : Block → List Element
  | functionDef f => f.body
  | classDef c => c.body
  | conditional _ c => c.first.body
  | otherwise body => body

/-- The branch after this one. -/
def next : Block → Option Block
  | conditional _ ⟨_, b :: elifs, final⟩ => some (conditional "elif" ⟨b, elifs, final⟩)
  | conditional _ ⟨_, [], final⟩ => final.map otherwise
  | _ => none

def footer (b : Block) : Element :=
  (b.next.map element).getD .empty

/-- All that stands in the block comes from the library. -/
inductive Built : Block → Prop
  | functionDef {f : Function} (h : ∀ e ∈ f.body, e.Built) : Built (functionDef f)
  | classDef {c : Class} (h : ∀ e ∈ c.body, e.Built) : Built (classDef c)
  | conditional {keyword : String} {c : Conditional}
      (hc : ∀ b ∈ c.first :: c.elifs, b.condition.Built)
      (hb : ∀ b ∈ c.first :: c.elifs, ∀ e ∈ b.body, e.Built)
      (ho : ∀ body ∈ c.otherwise, ∀ e ∈ body, e.Built) : Built (conditional keyword c)
  | otherwise {body : List Element} (h : ∀ e ∈ body, e.Built) : Built (otherwise body)

theorem Built.element {b : Block} (h : b.Built) : b.element.Built := by
  cases h with
  | functionDef h => exact .functionDef _ h
  | classDef h => exact .classDef _ h
  | conditional hc hb ho => exact .conditional _ _ hc hb ho
  | otherwise h => exact .otherwise _ h

theorem Built.children {b : Block} (h : b.Built) : ∀ e ∈ b.children, e.Built := by
  cases h with
  | functionDef h => exact h
  | classDef h => exact h
  | conditional hc hb ho => exact hb _ (by simp)
  | otherwise h => exact h

theorem Built.next {b n : Block} (h : b.Built) (hn : n ∈ b.next) : n.Built := by
  cases h with
  | functionDef h => cases hn
  | classDef h => cases hn
  | otherwise h => cases hn
  | @conditional keyword c hc hb ho =>
    obtain ⟨first, elifs, final⟩ := c
    cases elifs with
    | cons b elifs =>
      obtain rfl : n = .conditional "elif" ⟨b, elifs, final⟩ := (Option.some.inj hn).symm
      exact .conditional (fun a ha => hc a (List.mem_cons_of_mem _ ha))
        (fun a ha => hb a (List.mem_cons_of_mem _ ha)) ho
    | nil =>
      obtain ⟨body, hbody, rfl⟩ := Option.map_eq_some_iff.mp hn
      exact .otherwise (ho body hbody)

theorem Built.plain_header {b : Block} (h : b.Built) : b.header.Plain := by
  cases h with
  | @functionDef f => exact f.plain_header
  | @classDef c => exact c.plain_header
  | @conditional keyword c hc =>
    have hcondition : c.first.condition.Plain := (hc c.first (by simp)).plain
    apply Element.Plain.seq
    simp [hcondition, Element.Plain.text, Element.Plain.lineFeed]
  | otherwise => exact (Element.flat_line _).plain

theorem closed_header (b : Block) : b.header.Closed := by
  cases b with
  | functionDef f => exact f.closed_header
  | classDef c => exact c.closed_header
  | conditional keyword c => exact fun _ => rfl
  | otherwise body => exact Element.closed_line _

theorem height_header_le (b : Block) : b.header.height ≤ b.element.height := by
  cases b with
  | functionDef f =>
    obtain ⟨parts, hparts, he⟩ := f.header_eq
    have hheader : f.header.height = 1 := by rw [he, height_seq_docElement hparts]
    have helement := f.height_element
    simp only [header, element]
    omega
  | classDef c =>
    obtain ⟨parts, hparts, he⟩ := c.header_eq
    have hheader : c.header.height = 1 := by rw [he, height_seq_docElement hparts]
    have helement := c.height_element
    simp only [header, element]
    omega
  | conditional keyword c =>
    have helement := c.height_elementAs keyword
    simp only [List.map_cons, Element.heightAll] at helement
    simp only [header, element, Element.height, Element.heightAll]
    omega
  | otherwise body =>
    rw [header, (Element.flat_line _).height]
    exact Nat.zero_le _

theorem height_children_lt (b : Block) : Element.heightAll b.children < b.element.height := by
  cases b with
  | functionDef f =>
    have helement := f.height_element
    simp only [children, element]
    omega
  | classDef c =>
    have helement := c.height_element
    simp only [children, element]
    omega
  | conditional keyword c =>
    have helement := c.height_elementAs keyword
    simp only [List.map_cons, List.cons_append, Element.heightAll, Element.height] at helement
    simp only [children, element]
    omega
  | otherwise body =>
    have helement := height_otherwiseElement body
    simp only [children, element]
    omega

theorem height_next_le {b n : Block} (hn : n ∈ b.next) : n.element.height ≤ b.element.height := by
  cases b with
  | functionDef f => cases hn
  | classDef c => cases hn
  | otherwise body => cases hn
  | conditional keyword c =>
    obtain ⟨first, elifs, final⟩ := c
    cases elifs with
    | cons b elifs =>
      obtain rfl : n = .conditional "elif" ⟨b, elifs, final⟩ := (Option.some.inj hn).symm
      exact Nat.le_max_right _ _
    | nil =>
      obtain ⟨body, rfl, rfl⟩ := Option.map_eq_some_iff.mp hn
      simp only [element, Conditional.elementAs, Element.height]
      apply Element.height_le_heightAll
      simp

theorem run_element (b : Block) (out : Sink σ ε) (flush : Writer σ → Outcome ε (Writer σ))
    (w : Writer σ) :
    b.element.run out flush w =
      (b.header.run out flush w).andThen fun v =>
        ((Element.body b.children .pass).run out flush v).andThen (b.footer.run out flush) := by
  cases b with
  | functionDef f => rfl
  | classDef c => rfl
  | conditional keyword c =>
    obtain ⟨first, elifs, final⟩ := c
    have hrest : Element.runAll out flush
        (elifs.map (Branch.element "elif") ++ (final.map otherwiseElement).toList) =
          (conditional keyword ⟨first, elifs, final⟩).footer.run out flush := by
      funext u
      cases elifs with
      | cons b elifs => rfl
      | nil =>
        cases final with
        | none => rfl
        | some body => exact Element.runAll_singleton (otherwiseElement body) u
    have hbranch : (first.element keyword).run out flush w =
        ((conditional keyword ⟨first, elifs, final⟩).header.run out flush w).andThen
          (Element.runAll out flush [.body first.body .pass]) :=
      Element.runAll_append [_, _, _, _, _] _ w
    have hchain : (conditional keyword ⟨first, elifs, final⟩).element.run out flush w =
        ((first.element keyword).run out flush w).andThen (Element.runAll out flush
          (elifs.map (Branch.element "elif") ++ (final.map otherwiseElement).toList)) := rfl
    rw [hchain, hrest, hbranch, Outcome.andThen_assoc]
    simp only [Element.runAll_singleton]
    rfl
  | otherwise body => rfl

theorem Built.plain_footer {b : Block} (h : b.Built) : b.footer.Plain := by
  unfold footer
  cases hn : b.next with
  | none => exact Element.flat_empty.plain
  | some n => exact (h.next hn).element.plain

/-- The body of a block is never empty. From the start of a line and into a sink that refuses
nothing, it is one line with `pass`, one level deeper than the header, if all children are silent.
Otherwise it is what the children write from there, and the terminator if they leave a line open.
The rest of a conditional comes after it and is a block again. -/
theorem body_written {b : Block} (hb : b.Built) {out : Sink σ ε}
    (hout : ∀ s target, ∃ last, out.append s target = .done last) {w : Writer σ}
    (hs : w.atLineStart = true) (ht : w.terminator ≠ "")
    (hd : w.depth + b.element.height ≤ maxDepth) :
    ∃ v inner u,
      b.header.emit out w = .done v ∧ v.atLineStart = true ∧ v.depth = w.depth ∧
      (Element.seq b.children).emit out (v.indent 1) = .done inner ∧
      (v.indent 1).depth = w.depth + 1 ∧
      (Element.body b.children .pass).emit out v = .done u ∧
      u.atLineStart = true ∧ u.depth = w.depth ∧ u.unit = w.unit ∧
      u.terminator = w.terminator ∧ v.written < u.written ∧
      ((∀ e ∈ b.children, e.Silent) →
        inner = v.indent 1 ∧ ∃ texts,
          String.join texts = repeated w.unit (w.depth + 1) ++ "pass" ++ w.terminator ∧
          out.appendAll texts v.target = .done u.target) ∧
      ((¬ ∀ e ∈ b.children, e.Silent) →
        v.written < inner.written ∧
          if inner.atLineStart then u.target = inner.target
          else out.append w.terminator inner.target = .done u.target) ∧
      b.element.emit out w = b.footer.emit out u ∧
      ∀ n ∈ b.next, n.Built ∧ u.depth + n.element.height ≤ maxDepth := by
  have hheight := b.height_header_le
  have hchildren := b.height_children_lt
  obtain ⟨-, target, -, -, hheader⟩ := hb.plain_header.emit_done hout hs ht (by omega)
  have hended : b.header.page.current.isNone = true :=
    Option.isNone_iff_eq_none.mpr (b.closed_header 0)
  rw [hended] at hheader
  obtain ⟨v, hv⟩ : ∃ v : Writer σ, v = { w with
      target := target
      atLineStart := true
      written := w.written + b.header.page.size w.terminator } := ⟨_, rfl⟩
  rw [← hv] at hheader
  have hstart : v.atLineStart = true := by rw [hv]
  have hunit : v.unit = w.unit := by rw [hv]
  have hterminator : v.terminator = w.terminator := by rw [hv]
  have hdepth : v.depth = w.depth := by rw [hv]
  have hwhole : ∀ u, (Element.body b.children .pass).emit out v = .done u →
      b.element.emit out w = b.footer.emit out u := by
    intro u hu
    rw [hb.plain_header.emit_eq .done] at hheader
    rw [(Element.Plain.body fun e he => (hb.children e he).plain).emit_eq .done] at hu
    rw [hb.element.plain.emit_eq .done, hb.plain_footer.emit_eq .done, run_element, hheader,
      Outcome.andThen_done, hu, Outcome.andThen_done]
  have hnext : ∀ n ∈ b.next, n.Built ∧ w.depth + n.element.height ≤ maxDepth := by
    intro n hn
    have hle := height_next_le hn
    exact ⟨hb.next hn, by omega⟩
  by_cases hsilent : ∀ e ∈ b.children, e.Silent
  · obtain ⟨hinner, texts, last, hjoin, hlast, hbody⟩ :=
      Element.emit_body_of_silent hsilent (fun e he => (hb.children e he).plain) hout hstart
        (by rwa [hterminator]) (by omega)
    rw [hunit, hterminator, hdepth] at hjoin
    have hbytes := mt String.utf8ByteSize_eq_zero_iff.mp ht
    refine ⟨v, v.indent 1, _, hheader, hstart, hdepth, hinner,
      Writer.depth_indent_one hdepth (by omega), hbody, hstart, hdepth, hunit, hterminator, ?_,
      fun _ => ⟨rfl, texts, hjoin, hlast⟩, fun h => absurd hsilent h, hwhole _ hbody, ?_⟩
    · simp only
      omega
    · rw [← hdepth] at hnext
      exact hnext
  · obtain ⟨inner, last, hinner, hwritten, hlast, hbody⟩ :=
      Element.emit_body_of_not_silent hb.children hsilent hout hstart (by rwa [hterminator])
        (by omega)
    rw [hterminator] at hlast
    refine ⟨v, inner, _, hheader, hstart, hdepth, hinner,
      Writer.depth_indent_one hdepth (by omega), hbody, hstart, hdepth, hunit, hterminator, ?_,
      fun h => absurd h hsilent, fun _ => ⟨hwritten, hlast⟩, hwhole _ hbody, ?_⟩
    · simp only
      split <;> omega
    · rw [← hdepth] at hnext
      exact hnext

theorem body_written_conditional :
    let m : Module := { name := "m", body := [.comment ""] }
    let c : Conditional :=
      { first := { condition := .stack ["x and", "y"], body := [.text "", m.element] }
        otherwise := some [.empty, .text "z"] }
    let w : Writer String :=
      { unit := "\t", terminator := "\r\n", depth := 1, written := 3, target := "old" }
    (conditional "if" c).Built ∧ (∀ e ∈ c.first.body, e.Silent) ∧
      (∃ v u, (conditional "if" c).header.emit (Sink.text : Sink String Empty) w = .done v ∧
        (Element.body c.first.body .pass).emit (Sink.text : Sink String Empty) v = .done u ∧
        u.target = v.target ++ "\t\tpass\r\n") ∧
      (otherwise [.empty, .text "z"]).Built ∧ ¬ (Element.text "z").Silent ∧
      ∃ v inner u,
        (otherwise [.empty, .text "z"]).header.emit (Sink.text : Sink String Empty) w = .done v ∧
        (Element.seq [.empty, .text "z"]).emit (Sink.text : Sink String Empty) (v.indent 1) =
          .done inner ∧
        (Element.body [.empty, .text "z"] .pass).emit (Sink.text : Sink String Empty) v =
          .done u ∧
        v.written < inner.written ∧
        u.target = inner.target ++ if inner.atLineStart then "" else "\r\n" := by
  intro m c w
  have hout : ∀ s target, ∃ last,
      (Sink.text : Sink String Empty).append s target = .done last :=
    fun s target => ⟨target ++ s, rfl⟩
  have hm : m.element.Silent :=
    .module rfl rfl rfl (by decide) (by simp [m, Element.Silent.comment])
  have hsilent : ∀ e ∈ c.first.body, e.Silent := by simp [c, hm, Element.Silent.text]
  have hz : ¬ (Element.text "z").Silent := by
    intro h
    have hrun : (Element.text "z").run (Sink.text : Sink String Empty) .done w = .done w :=
      h.run_eq rfl
    have hwritten := congrArg (fun o => o.state.written) hrun
    exact absurd hwritten (by decide)
  have hbuilt : (conditional "if" c).Built := by
    refine .conditional ?_ ?_ ?_
    · simp [c, Element.Built.stack]
    · simp [c, m, Element.Built.text, Element.Built.module, Element.Built.comment]
    · simp [c, Element.Built.text, Element.Built.absent]
  have helse : (otherwise [.empty, .text "z"]).Built :=
    .otherwise (by simp [Element.Built.text, Element.Built.absent])
  obtain ⟨v, inner, u, hheader, -, -, -, -, hbody, -, -, -, -, -, hpass, -⟩ :=
    body_written hbuilt hout (w := w) rfl (by decide) (by decide)
  obtain ⟨v', inner', u', hheader', -, -, hinner', -, hbody', -, -, -, -, -, -, hopen, -⟩ :=
    body_written helse hout (w := w) rfl (by decide) (by decide)
  refine ⟨hbuilt, hsilent, ⟨v, u, hheader, hbody, ?_⟩, helse, hz, v', inner', u', hheader',
    hinner', hbody', ?_⟩
  · obtain ⟨-, texts, hjoin, hlast⟩ := hpass hsilent
    rw [Sink.appendAll_text, hjoin] at hlast
    exact (Outcome.done.inj hlast).symm
  · obtain ⟨hwritten, htarget⟩ := hopen fun h => hz (h _ (by simp [children]))
    refine ⟨hwritten, ?_⟩
    split at htarget
    · next hstart => rw [htarget, if_pos hstart, String.append_empty]
    · next hstart =>
      rw [if_neg hstart]
      exact (Outcome.done.inj htarget).symm

end Block

end Stencil
