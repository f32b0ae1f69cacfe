import Stencil.Proofs.Bodies

/-! What an element writes when it stands alone on a line of its own, at any depth. One level
deeper an element is laid out on the same lines, so the children of a block read as they do
alone. -/

namespace Stencil

variable {σ ε : Type}

/-- An empty line has no level. -/
def Line.deeper (line : Line) : Line where
  level := if line.text = "" then line.level else line.level + 1
  text := line.text

theorem Line.deeper_injective {line other : Line} (h : line.deeper = other.deeper) :
    line = other := by
  obtain ⟨level, text⟩ := line
  obtain ⟨level', text'⟩ := other
  simp only [Line.deeper, Line.mk.injEq] at h
  obtain ⟨hlevel, rfl⟩ := h
  by_cases ht : text = ""
  · simp only [ht, if_true] at hlevel
    rw [hlevel]
  · simp only [ht, if_false] at hlevel
    have heq : level = level' := by omega
    rw [heq]

theorem Line.shown_deeper (unit : String) (depth : Nat) (line : Line) :
    line.deeper.shown unit depth = line.shown unit (depth + 1) := by
  by_cases ht : line.text = ""
  · simp [Line.shown, Line.deeper, ht]
  · have hlevel : depth + (line.level + 1) = depth + 1 + line.level := by omega
    simp only [Line.shown, Line.deeper, ht, if_false, hlevel]

namespace Page

def deeper (page : Page) : Page where
  ended := page.ended.map Line.deeper
  current := page.current.map Line.deeper
  filled := by
    intro line hline
    obtain ⟨line, hc, rfl⟩ := Option.map_eq_some_iff.mp hline
    exact page.filled line hc

theorem deeper_injective {p q : Page} (h : p.deeper = q.deeper) : p = q := by
  have hinj : ∀ line other : Line, line.deeper = other.deeper → line = other :=
    fun _ _ he => Line.deeper_injective he
  have hended : p.ended = q.ended := (List.map_inj_right hinj).mp (congrArg Page.ended h)
  have hcurrent : p.current = q.current := (Option.map_inj_right hinj).mp (congrArg Page.current h)
  cases p
  cases q
  simp only [mk.injEq]
  exact ⟨hended, hcurrent⟩

theorem shown_deeper (unit terminator : String) (depth : Nat) (page : Page) :
    page.deeper.shown unit terminator depth = page.shown unit terminator (depth + 1) := by
  have hline : Line.shown unit depth ∘ Line.deeper = Line.shown unit (depth + 1) :=
    funext fun line => line.shown_deeper unit depth
  simp only [shown, deeper, List.map_map, Option.map_map, hline]
  congr 2
  apply List.map_congr_left
  intro line _
  exact congrArg (· ++ terminator) (line.shown_deeper unit depth)

theorem write_deeper (level : Nat) (s : String) (page : Page) :
    page.deeper.write (level + 1) s = (page.write level s).deeper := by
  by_cases hs : s = ""
  · simp [write, hs]
  · cases hc : page.current with
    | none => simp [write, deeper, Line.deeper, hs, hc]
    | some line =>
      have hline : line.text ≠ "" := page.filled line hc
      simp [write, deeper, Line.deeper, hs, hc, hline]

theorem lineFeed_deeper (page : Page) : page.deeper.lineFeed = page.lineFeed.deeper := by
  cases hc : page.current <;> simp [lineFeed, deeper, Line.deeper, hc]

theorem freshLine_deeper (page : Page) : page.deeper.freshLine = page.freshLine.deeper := by
  have hc : page.deeper.current.isNone = page.current.isNone := by simp [deeper]
  unfold freshLine
  rw [hc, lineFeed_deeper]
  split <;> rfl

theorem shown_freshLine (unit terminator : String) (depth : Nat) (page : Page) :
    page.freshLine.shown unit terminator depth =
      page.shown unit terminator depth ++ if page.current.isNone then "" else terminator := by
  unfold freshLine
  split
  · rw [String.append_empty]
  · exact page.shown_lineFeed

theorem shown_eq_empty_iff {unit terminator : String} {depth : Nat} (ht : terminator ≠ "")
    (page : Page) : page.shown unit terminator depth = "" ↔ page = .blank := by
  constructor
  · intro h
    obtain ⟨hended, hcurrent⟩ := String.append_eq_empty_iff.mp h
    have hnone : page.current = none := by
      cases hc : page.current with
      | none => rfl
      | some line =>
        have hline : line.text ≠ "" := page.filled line hc
        simp [hc, Line.shown, hline] at hcurrent
    have hnil : page.ended = [] := by
      cases he : page.ended with
      | nil => rfl
      | cons line rest => simp [he, ht] at hended
    rw [eq_below_of_closed hnone, hnil]
    rfl
  · rintro rfl
    rfl

end Page

mutual

theorem Element.lay_deeper : (e : Element) → (level : Nat) → (page : Page) →
    e.lay (level + 1) page.deeper = (e.lay level page).deeper
  | .text s, level, page => page.write_deeper level s
  | .lineFeed, _, page => page.lineFeed_deeper
  | .freshLine, _, page => page.freshLine_deeper
  | .seq parts, level, page => Element.layAll_deeper parts level page
  | .indented parts, level, page => Element.layAll_deeper parts (level + 1) page
  | .body children placeholder, level, page => by
    have hc := Element.layAll_deeper children (level + 1) page
    have hp := Element.lay_deeper placeholder (level + 1) page
    simp only [Element.lay, hc, hp]
    by_cases h : Element.layAll children (level + 1) page = page
    · rw [if_pos (congrArg Page.deeper h), if_pos h, Page.freshLine_deeper]
    · rw [if_neg fun he => h (Page.deeper_injective he), if_neg h, Page.freshLine_deeper]
  | .indent _, _, _ | .dedent _, _, _ | .reset, _, _ | .register _, _, _ | .flush, _, _ => rfl

theorem Element.layAll_deeper : (es : List Element) → (level : Nat) → (page : Page) →
    Element.layAll es (level + 1) page.deeper = (Element.layAll es level page).deeper
  | [], _, _ => rfl
  | e :: es, level, page => by
    rw [Element.layAll, Element.layAll, Element.lay_deeper e, Element.layAll_deeper es]

end

section Texts

variable {unit terminator : String} {depth : Nat}

theorem Element.shown_page_line {s : String} (hs : s ≠ "") :
    (Element.line s).page.shown unit terminator depth =
      repeated unit depth ++ s ++ terminator := by
  have hpage : (Element.line s).page = (Page.blank.write 0 s).lineFeed := rfl
  have hblank : Page.blank.shown unit terminator depth = "" := rfl
  have hnone : Page.blank.current.isNone = true := rfl
  rw [hpage, Page.shown_lineFeed, Page.shown_write _ _ hs, hblank, hnone, if_pos rfl,
    String.empty_append, Nat.add_zero]

theorem Element.shown_page_blankLine :
    Element.blankLine.page.shown unit terminator depth = terminator := by
  have hpage : Element.blankLine.page = { ended := [⟨0, ""⟩] } := rfl
  rw [hpage]
  simp [Page.shown, Line.shown]

theorem Element.shown_page_indented (parts : List Element) :
    (Element.indented parts).page.shown unit terminator depth =
      (Element.seq parts).page.shown unit terminator (depth + 1) := by
  have hpage : (Element.indented parts).page = (Element.seq parts).page.deeper :=
    Element.layAll_deeper parts 0 .blank
  rw [hpage, Page.shown_deeper]

theorem Element.closed_body (children : List Element) : (Element.body children .pass).Closed :=
  fun _ => Page.current_freshLine _

theorem Element.shown_page_body (children : List Element) :
    (Element.body children .pass).page.shown unit terminator depth =
      if (Element.seq children).page = .blank then repeated unit (depth + 1) ++ "pass" ++ terminator
      else (Element.seq children).page.shown unit terminator (depth + 1) ++
        if (Element.seq children).page.current.isNone then "" else terminator := by
  have hinner : Element.layAll children 1 .blank = (Element.seq children).page.deeper :=
    Element.layAll_deeper children 0 .blank
  have hpass : Element.pass.lay 1 .blank = Element.pass.page.deeper :=
    Element.pass.lay_deeper 0 .blank
  have hbody : (Element.body children .pass).page =
      (if Element.layAll children 1 .blank = .blank then Element.pass.lay 1 .blank
        else Element.layAll children 1 .blank).freshLine := rfl
  rw [hbody, hinner, hpass]
  by_cases hblank : (Element.seq children).page = .blank
  · have hdeeper : (Element.seq children).page.deeper = .blank := congrArg Page.deeper hblank
    have hended : Element.pass.page.current.isNone = true := rfl
    rw [if_pos hblank, if_pos hdeeper, Page.freshLine_deeper, Page.shown_deeper,
      Page.shown_freshLine, hended, if_pos rfl, Element.shown_page_pass, String.append_empty]
  · have hdeeper : (Element.seq children).page.deeper ≠ .blank := fun he =>
      hblank (Page.deeper_injective he)
    rw [if_neg hblank, if_neg hdeeper, Page.freshLine_deeper, Page.shown_deeper,
      Page.shown_freshLine]

end Texts

/-- The writer after an element that stood alone, at the given depth and with nothing before. -/
def Element.alone (unit terminator : String) (depth : Nat) (e : Element) : Writer String :=
  (e.emit (Sink.text : Sink String Empty)
    { unit := unit, terminator := terminator, depth := depth, target := "" }).state

theorem Element.Plain.alone_eq {e : Element} (h : e.Plain) (unit : String) {terminator : String}
    {depth : Nat} (ht : terminator ≠ "") (hd : depth + e.height ≤ maxDepth) :
    (e.alone unit terminator depth).target = e.page.shown unit terminator depth ∧
      (e.alone unit terminator depth).atLineStart = e.page.current.isNone := by
  obtain ⟨w, hw⟩ : ∃ w : Writer String,
      w = { unit := unit, terminator := terminator, depth := depth, target := "" } := ⟨_, rfl⟩
  have hemit : e.emit (Sink.text : Sink String Empty) w = .done (e.page.onto w 0) :=
    h.emit_text (by rw [hw]) (by rwa [hw]) (by rwa [hw])
  have halone : e.alone unit terminator depth = e.page.onto w 0 := by
    rw [Element.alone, ← hw, hemit]
    rfl
  rw [halone, hw]
  exact ⟨String.empty_append, rfl⟩

/-- A block whose header is written goes on with its body. -/
theorem Element.emit_block {header : Element} {children : List Element} (hh : header.Plain)
    (hp : ∀ e ∈ children, e.Plain) {out : Sink σ ε} {w v : Writer σ}
    (hv : header.emit out w = .done v) :
    (Element.block header children .pass .empty).emit out w =
      (Element.body children .pass).emit out v := by
  have hblock : (Element.block header children .pass .empty).Plain := by
    apply Element.Plain.seq
    simp [hh, Element.Plain.body hp, Element.flat_empty.plain]
  rw [hh.emit_eq .done] at hv
  rw [hblock.emit_eq .done, (Element.Plain.body hp).emit_eq .done, Element.block, Element.run,
    Element.runAll, hv, Outcome.andThen_done, Element.runAll]
  cases (Element.body children .pass).run out .done v <;> rfl

/-- What was appended is the given text, and the writer stands where it stood. -/
def Writes (out : Sink σ ε) (w : Writer σ) (text : String) (o : Outcome ε (Writer σ)) : Prop :=
  ∃ texts last count, String.join texts = text ∧ out.appendAll texts w.target = .done last ∧
    o = .done { w with target := last, written := count }

theorem Element.Plain.writes {e : Element} (h : e.Plain) (hc : e.Closed) {out : Sink σ ε}
    (hout : ∀ s target, ∃ last, out.append s target = .done last) {w : Writer σ}
    (hs : w.atLineStart = true) (ht : w.terminator ≠ "") (hd : w.depth + e.height ≤ maxDepth) :
    Writes out w (e.page.shown w.unit w.terminator w.depth) (e.emit out w) := by
  obtain ⟨texts, last, hjoin, hlast, hemit⟩ := h.emit_done hout hs ht hd
  have hended : e.page.current.isNone = true := Option.isNone_iff_eq_none.mpr (hc 0)
  rw [hended, ← hs] at hemit
  exact ⟨texts, last, _, hjoin, hlast, hemit⟩

/-- A block goes on behind its header, from where that began. -/
theorem Element.writes_block {header : Element} {children : List Element} (hh : header.Plain)
    (hc : header.Closed) (hp : ∀ e ∈ children, e.Plain) {out : Sink σ ε}
    (hout : ∀ s target, ∃ last, out.append s target = .done last) {w : Writer σ}
    (hs : w.atLineStart = true) (ht : w.terminator ≠ "")
    (hd : w.depth + (Element.block header children .pass .empty).height ≤ maxDepth) :
    ∃ v, header.emit out w = .done v ∧ v.atLineStart = true ∧ v.depth = w.depth ∧
      Writes out v ((Element.body children .pass).page.shown w.unit w.terminator w.depth)
        ((Element.block header children .pass .empty).emit out w) := by
  have hheader : header.height ≤ (Element.block header children .pass .empty).height :=
    Element.height_le_heightAll (by simp)
  have hbody : (Element.body children .pass).height ≤
      (Element.block header children .pass .empty).height :=
    Element.height_le_heightAll (by simp)
  obtain ⟨-, last, count, -, -, hemit⟩ := hh.writes hc hout hs ht (by omega)
  obtain ⟨v, hv⟩ : ∃ v : Writer σ, v = { w with target := last, written := count } := ⟨_, rfl⟩
  rw [← hv] at hemit
  have hstart : v.atLineStart = true := by rwa [hv]
  have hdepth : v.depth = w.depth := by rw [hv]
  have hunit : v.unit = w.unit := by rw [hv]
  have hterminator : v.terminator = w.terminator := by rw [hv]
  have hwrites := (Element.Plain.body hp).writes (Element.closed_body children) hout hstart
    (by rwa [hterminator]) (by omega)
  rw [hunit, hterminator, hdepth, ← Element.emit_block hh hp hemit] at hwrites
  exact ⟨v, hemit, hstart, hdepth, hwrites⟩

theorem Sink.text_accepts (ε : Type) (s target : String) :
    ∃ last, (Sink.text : Sink String ε).append s target = .done last :=
  ⟨target ++ s, rfl⟩

end Stencil
