import Stencil.Code.Conditional
import Stencil.Code.Definition
import Stencil.Code.Module

/-! The elements of the library, and how deep their indented scopes nest. None of them acts
on the writer itself: they reduce to text, line ends, sequences and indented bodies with
`pass` for a placeholder, and proofs about all of them go by induction over these few. -/

namespace Stencil

namespace Element

mutual

/-- How many indented scopes nest at most. -/
def height : Element → Nat
  | .seq parts => heightAll parts
  | .indented parts => heightAll parts + 1
  | .body children placeholder => max (heightAll children) placeholder.height + 1
  | _ => 0

def heightAll : List Element → Nat
  | [] => 0
  | e :: es => max e.height (heightAll es)

end

/-- Elements without steps that act on the writer itself. -/
inductive Plain : Element → Prop
  | text (s : String) : Plain (.text s)
  | lineFeed : Plain .lineFeed
  | freshLine : Plain .freshLine
  | seq {parts : List Element} : (∀ e ∈ parts, Plain e) → Plain (.seq parts)
  | indented {parts : List Element} : (∀ e ∈ parts, Plain e) → Plain (.indented parts)
  | body {children : List Element} : (∀ e ∈ children, Plain e) → Plain (.body children .pass)

/-- Trees of library elements. An absent element is empty and a present one is itself. -/
inductive Built : Element → Prop
  | absent : Built .empty
  | text (s : String) : Built (.text s)
  | stack (lines : List String) : Built (.stack lines)
  | line (s : String) : Built (.line s)
  | blankLine : Built .blankLine
  | seq {parts : List Element} : (∀ e ∈ parts, Built e) → Built (.seq parts)
  | pass : Built .pass
  | assign (target value : String) : Built (.assign target value)
  | returns (value : Option String) : Built (.returns value)
  | comment (s : String) : Built (.comment s)
  | docstring (s : String) : Built (.docstring s)
  | parameters (p : Parameters) : Built p.element
  | decorator (d : Decorator) : Built d.element
  | functionDef (f : Function) : (∀ e ∈ f.body, Built e) → Built f.element
  | classDef (c : Class) : (∀ e ∈ c.body, Built e) → Built c.element
  | conditional (keyword : String) (c : Conditional) :
      (∀ b ∈ c.first :: c.elifs, Built b.condition) →
      (∀ b ∈ c.first :: c.elifs, ∀ e ∈ b.body, Built e) →
      (∀ body ∈ c.otherwise, ∀ e ∈ body, Built e) → Built (c.elementAs keyword)
  | otherwise (body : List Element) : (∀ e ∈ body, Built e) → Built (otherwiseElement body)
  | imports (i : Imports) : Built i.element
  | module (m : Module) : (∀ e ∈ m.body, Built e) → Built m.element

theorem height_le_heightAll {e : Element} {es : List Element} (h : e ∈ es) :
    e.height ≤ heightAll es := by
  induction es with
  | nil => cases h
  | cons a es ih =>
    simp only [heightAll]
    rcases List.mem_cons.mp h with rfl | h
    · omega
    · have := ih h
      omega

@[simp] theorem heightAll_append (xs ys : List Element) :
    heightAll (xs ++ ys) = max (heightAll xs) (heightAll ys) := by
  induction xs with
  | nil => simp [heightAll]
  | cons e xs ih =>
    simp only [List.cons_append, heightAll, ih]
    omega

theorem heightAll_le {es : List Element} {n : Nat} (h : ∀ e ∈ es, e.height ≤ n) :
    heightAll es ≤ n := by
  induction es with
  | nil => exact Nat.zero_le n
  | cons e es ih =>
    have he := h e (by simp)
    have hes := ih fun a ha => h a (by simp [ha])
    simp only [heightAll]
    omega

theorem heightAll_eq_zero {es : List Element} (h : ∀ e ∈ es, e.height = 0) :
    heightAll es = 0 :=
  Nat.le_zero.mp (heightAll_le fun e he => Nat.le_of_eq (h e he))

/-- Plain, and without any indented scope. -/
structure Flat (e : Element) : Prop where
  plain : e.Plain
  height : e.height = 0

theorem flat_text (s : String) : (Element.text s).Flat :=
  ⟨.text s, rfl⟩

theorem flat_lineFeed : Element.lineFeed.Flat :=
  ⟨.lineFeed, rfl⟩

theorem flat_freshLine : Element.freshLine.Flat :=
  ⟨.freshLine, rfl⟩

theorem flat_seq {parts : List Element} (h : ∀ e ∈ parts, e.Flat) : (Element.seq parts).Flat :=
  ⟨.seq fun e he => (h e he).plain, heightAll_eq_zero fun e he => (h e he).height⟩

theorem flat_empty : Element.empty.Flat :=
  flat_seq (by simp)

theorem flat_line (s : String) : (Element.line s).Flat :=
  flat_seq (by simp [flat_text, flat_lineFeed])

theorem flat_lines (ls : List String) : (Element.seq (ls.map .line)).Flat := by
  apply flat_seq
  intro e he
  obtain ⟨l, _, rfl⟩ := List.mem_map.mp he
  exact flat_line l

theorem flat_blankLine : Element.blankLine.Flat :=
  flat_seq (by simp [flat_freshLine, flat_lineFeed])

theorem flat_stack (lines : List String) : (Element.stack lines).Flat := by
  cases lines with
  | nil => exact flat_empty
  | cons s rest =>
    apply flat_seq
    simp only [List.mem_cons, List.mem_flatMap, List.not_mem_nil, or_false]
    rintro e (rfl | ⟨t, _, rfl | rfl⟩)
    · exact flat_text s
    · exact flat_lineFeed
    · exact flat_text t

theorem comment_eq_lines (s : String) : ∃ ls : List String, comment s = .seq (ls.map .line) := by
  refine ⟨(lines s).map fun l => if l.isEmpty then "#" else "# " ++ l, ?_⟩
  rw [comment, List.map_map]
  rfl

theorem docstring_eq_lines (s : String) :
    (∃ ls : List String, docstring s = .seq (ls.map .line)) ∨ ∃ l, docstring s = .line l := by
  simp only [docstring]
  split
  · refine .inl ⟨tripleQuote :: (charLines (escapeTriples (trimBoth s.toList))).map
      (fun l => String.ofList (trimRight l)) ++ [tripleQuote], ?_⟩
    rw [List.map_append, List.map_cons, List.map_map]
    rfl
  · exact .inr ⟨_, rfl⟩

theorem flat_comment (s : String) : (Element.comment s).Flat := by
  obtain ⟨ls, h⟩ := comment_eq_lines s
  rw [h]
  exact flat_lines ls

theorem flat_docstring (s : String) : (Element.docstring s).Flat := by
  rcases docstring_eq_lines s with ⟨ls, h⟩ | ⟨l, h⟩
  · rw [h]
    exact flat_lines ls
  · rw [h]
    exact flat_line l

theorem flat_returns (value : Option String) : (Element.returns value).Flat := by
  cases value <;> exact flat_line _

end Element

theorem Decorator.flat_element (d : Decorator) : d.element.Flat := by
  apply Element.flat_seq
  simp only [List.mem_cons, List.not_mem_nil, or_false]
  rintro e (rfl | rfl | rfl)
  · exact Element.flat_text _
  · cases d.arguments with
    | none => exact Element.flat_empty
    | some p => exact Element.flat_text p.text
  · exact Element.flat_lineFeed

theorem Imports.flat_element (i : Imports) : i.element.Flat :=
  Element.flat_lines i.statements

theorem flat_gap (count : Nat) : (gap count).Flat := by
  apply Element.flat_seq
  intro e he
  rcases List.mem_cons.mp he with rfl | he
  · exact Element.flat_freshLine
  · rw [List.eq_of_mem_replicate he]
    exact Element.flat_lineFeed

theorem plain_docElement (doc : Option String) : (docElement doc).Plain := by
  apply Element.Plain.indented
  intro e he
  obtain ⟨s, _, rfl⟩ := Option.map_eq_some_iff.mp (Option.mem_toList.mp he)
  exact (Element.flat_docstring s).plain

theorem height_docElement (doc : Option String) : (docElement doc).height = 1 := by
  have h : Element.heightAll (doc.map Element.docstring).toList = 0 := by
    apply Element.heightAll_eq_zero
    intro e he
    obtain ⟨s, _, rfl⟩ := Option.map_eq_some_iff.mp (Option.mem_toList.mp he)
    exact (Element.flat_docstring s).height
  simp only [docElement, Element.height, h]

/-- Flat elements before a docstring: the shape of every header. -/
theorem plain_seq_docElement {parts : List Element} (h : ∀ e ∈ parts, e.Flat)
    (doc : Option String) : (Element.seq (parts ++ [docElement doc])).Plain := by
  apply Element.Plain.seq
  intro e he
  rcases List.mem_append.mp he with he | he
  · exact (h e he).plain
  · rw [List.mem_singleton.mp he]
    exact plain_docElement doc

theorem height_seq_docElement {parts : List Element} (h : ∀ e ∈ parts, e.Flat)
    (doc : Option String) : (Element.seq (parts ++ [docElement doc])).height = 1 := by
  have hp := Element.heightAll_eq_zero fun e he => (h e he).height
  simp [Element.height, Element.heightAll, hp, height_docElement]

theorem plain_block {header : Element} {children : List Element} (hh : header.Plain)
    (hc : ∀ e ∈ children, e.Plain) : (Element.block header children .pass .empty).Plain := by
  apply Element.Plain.seq
  simp only [List.mem_cons, List.not_mem_nil, or_false]
  rintro e (rfl | rfl | rfl)
  · exact hh
  · exact .body hc
  · exact Element.flat_empty.plain

theorem height_body_pass (children : List Element) :
    (Element.body children .pass).height = Element.heightAll children + 1 := by
  have h : Element.pass.height = 0 := (Element.flat_line _).height
  simp [Element.height, h]

theorem height_block {header : Element} (hh : header.height ≤ 1) (children : List Element) :
    (Element.block header children .pass .empty).height = Element.heightAll children + 1 := by
  have he : Element.empty.height = 0 := Element.flat_empty.height
  show max header.height (max (Element.body children .pass).height (max Element.empty.height 0)) = _
  rw [height_body_pass, he]
  omega

namespace Function

theorem header_eq (f : Function) : ∃ parts, (∀ e ∈ parts, Element.Flat e) ∧
    f.header = .seq (parts ++ [docElement f.doc]) := by
  refine ⟨f.decorators.map Decorator.element
    ++ [.text ((if f.isAsync then "async " else "") ++ "def " ++ f.name ++ f.params.text)]
    ++ (f.returns.map fun r => .text (" -> " ++ r)).toList ++ [.text ":", .lineFeed], ?_, ?_⟩
  · simp only [List.mem_append, List.mem_map, List.mem_cons, List.not_mem_nil, or_false,
      Option.mem_toList, Option.map_eq_some_iff]
    rintro e (((⟨d, _, rfl⟩ | rfl) | ⟨r, _, rfl⟩) | rfl | rfl)
    · exact d.flat_element
    · exact Element.flat_text _
    · exact Element.flat_text _
    · exact Element.flat_text _
    · exact Element.flat_lineFeed
  · simp only [header, List.append_assoc, List.cons_append, List.nil_append]

theorem plain_element {f : Function} (h : ∀ e ∈ f.body, Element.Plain e) : f.element.Plain := by
  obtain ⟨parts, hp, he⟩ := f.header_eq
  exact plain_block (he ▸ plain_seq_docElement hp f.doc) h

theorem height_element (f : Function) : f.element.height = Element.heightAll f.body + 1 := by
  obtain ⟨parts, hp, he⟩ := f.header_eq
  have hh : f.header.height = 1 := by rw [he, height_seq_docElement hp]
  exact height_block (Nat.le_of_eq hh) _

end Function

namespace Class

theorem header_eq (c : Class) : ∃ parts, (∀ e ∈ parts, Element.Flat e) ∧
    c.header = .seq (parts ++ [docElement c.doc]) := by
  refine ⟨c.decorators.map Decorator.element
    ++ [.text ("class " ++ c.name ++ "(" ++ c.bases ++ "):"), .lineFeed], ?_, ?_⟩
  · simp only [List.mem_append, List.mem_map, List.mem_cons, List.not_mem_nil, or_false]
    rintro e (⟨d, _, rfl⟩ | rfl | rfl)
    · exact d.flat_element
    · exact Element.flat_text _
    · exact Element.flat_lineFeed
  · simp only [header, List.append_assoc, List.cons_append, List.nil_append]

theorem plain_element {c : Class} (h : ∀ e ∈ c.body, Element.Plain e) : c.element.Plain := by
  obtain ⟨parts, hp, he⟩ := c.header_eq
  exact plain_block (he ▸ plain_seq_docElement hp c.doc) h

theorem height_element (c : Class) : c.element.height = Element.heightAll c.body + 1 := by
  obtain ⟨parts, hp, he⟩ := c.header_eq
  have hh : c.header.height = 1 := by rw [he, height_seq_docElement hp]
  exact height_block (Nat.le_of_eq hh) _

end Class

theorem Branch.plain_element {b : Branch} (keyword : String) (hc : b.condition.Plain)
    (hb : ∀ e ∈ b.body, Element.Plain e) : (b.element keyword).Plain := by
  apply Element.Plain.seq
  simp only [List.mem_cons, List.not_mem_nil, or_false]
  rintro e (rfl | rfl | rfl | rfl | rfl | rfl)
  · exact .text keyword
  · exact .text " "
  · exact hc
  · exact .text ":"
  · exact .lineFeed
  · exact .body hb

theorem Branch.height_element (keyword : String) (b : Branch) :
    (b.element keyword).height = max b.condition.height (Element.heightAll b.body + 1) := by
  have h := height_body_pass b.body
  simp only [Branch.element, Element.height] at h ⊢
  simp only [Element.heightAll, Element.height, h]
  omega

theorem plain_otherwiseElement {body : List Element} (hb : ∀ e ∈ body, Element.Plain e) :
    (otherwiseElement body).Plain := by
  apply Element.Plain.seq
  simp only [List.mem_cons, List.not_mem_nil, or_false]
  rintro e (rfl | rfl)
  · exact (Element.flat_line _).plain
  · exact .body hb

theorem height_otherwiseElement (body : List Element) :
    (otherwiseElement body).height = Element.heightAll body + 1 := by
  show max (Element.line "else:").height (max (Element.body body .pass).height 0) = _
  rw [height_body_pass, (Element.flat_line _).height]
  omega

theorem Conditional.plain_elementAs {c : Conditional} (keyword : String)
    (hc : ∀ b ∈ c.first :: c.elifs, b.condition.Plain)
    (hb : ∀ b ∈ c.first :: c.elifs, ∀ e ∈ b.body, Element.Plain e)
    (ho : ∀ body ∈ c.otherwise, ∀ e ∈ body, Element.Plain e) : (c.elementAs keyword).Plain := by
  apply Element.Plain.seq
  simp only [List.cons_append, List.mem_cons, List.mem_append, List.mem_map, Option.mem_toList,
    Option.map_eq_some_iff]
  rintro e (rfl | ⟨b, hm, rfl⟩ | ⟨body, hm, rfl⟩)
  · exact Branch.plain_element keyword (hc _ (by simp)) (hb _ (by simp))
  · exact Branch.plain_element "elif" (hc b (by simp [hm])) (hb b (by simp [hm]))
  · exact plain_otherwiseElement (ho body hm)

theorem Branch.heightAll_map_element (keyword : String) (branches : List Branch) :
    Element.heightAll (branches.map (Branch.element keyword)) =
      max (Element.heightAll (branches.map Branch.condition))
        (Element.heightAll (branches.map fun b => .indented b.body)) := by
  induction branches with
  | nil => rfl
  | cons b branches ih =>
    simp only [List.map_cons, Element.heightAll, Branch.height_element, Element.height, ih]
    ac_rfl

/-- Conditions stand outside of the scopes, and every branch is one scope. -/
theorem Conditional.height_elementAs (keyword : String) (c : Conditional) :
    (c.elementAs keyword).height =
      max (Element.heightAll ((c.first :: c.elifs).map Branch.condition))
        (Element.heightAll
          ((c.first :: c.elifs).map (fun b => .indented b.body)
            ++ (c.otherwise.map .indented).toList)) := by
  have hotherwise : Element.heightAll (c.otherwise.map otherwiseElement).toList =
      Element.heightAll (c.otherwise.map .indented).toList := by
    cases c.otherwise with
    | none => rfl
    | some body =>
      simp only [Option.map_some, Option.toList_some, Element.heightAll, Element.height,
        height_otherwiseElement]
  simp only [Conditional.elementAs, Element.height, List.cons_append, Element.heightAll,
    Element.heightAll_append, List.map_cons, Branch.height_element,
    Branch.heightAll_map_element, hotherwise]
  ac_rfl

theorem eq_or_mem_of_mem_intersperse {α : Type} {a sep : α} {l : List α}
    (h : a ∈ l.intersperse sep) : a = sep ∨ a ∈ l := by
  fun_induction List.intersperse sep l with
  | case1 => exact .inr h
  | case2 x => exact .inr h
  | case3 x xs _ ih =>
    simp only [List.mem_cons] at h ⊢
    rcases h with h | h | h
    · exact .inr (.inl h)
    · exact .inl h
    · exact (ih h).imp_right .inr

theorem mem_intersperse_of_mem {α : Type} {a sep : α} {l : List α}
    (h : a ∈ l) : a ∈ l.intersperse sep := by
  fun_induction List.intersperse sep l with
  | case1 => exact h
  | case2 x => exact h
  | case3 x xs _ ih =>
    simp only [List.mem_cons] at h ⊢
    rcases h with h | h
    · exact .inl h
    · exact .inr (.inr (ih h))

namespace Module

theorem flat_sections {m : Module} {e : Element} (he : e ∈ m.sections) : e.Flat := by
  simp only [sections, List.mem_append, Option.mem_toList, Option.map_eq_some_iff] at he
  rcases he with (⟨s, _, rfl⟩ | ⟨s, _, rfl⟩) | he
  · exact Element.flat_comment s
  · exact Element.flat_docstring s
  · split at he
    · cases he
    · rw [List.mem_singleton.mp he]
      exact m.imports.flat_element

theorem mem_definitions {m : Module} {e : Element} (he : e ∈ m.definitions) :
    e = gap 2 ∨ e ∈ m.body := by
  unfold definitions at he
  split at he
  · exact eq_or_mem_of_mem_intersperse he
  · obtain ⟨a, ha, he⟩ := List.mem_flatMap.mp he
    simp only [List.mem_cons, List.not_mem_nil, or_false] at he
    rcases he with rfl | rfl
    · exact .inl rfl
    · exact .inr ha

theorem mem_definitions_of_mem_body {m : Module} {e : Element} (he : e ∈ m.body) :
    e ∈ m.definitions := by
  unfold definitions
  split
  · exact mem_intersperse_of_mem he
  · exact List.mem_flatMap.mpr ⟨e, he, by simp⟩

theorem flat_or_mem_body {m : Module} {e : Element}
    (he : e ∈ m.sections.intersperse (gap 1) ++ m.definitions ++ [.freshLine]) :
    e.Flat ∨ e ∈ m.body := by
  simp only [List.mem_append, List.mem_singleton] at he
  rcases he with (he | he) | rfl
  · rcases eq_or_mem_of_mem_intersperse he with rfl | he
    · exact .inl (flat_gap 1)
    · exact .inl (flat_sections he)
  · rcases mem_definitions he with rfl | he
    · exact .inl (flat_gap 2)
    · exact .inr he
  · exact .inl Element.flat_freshLine

theorem plain_element {m : Module} (h : ∀ e ∈ m.body, Element.Plain e) : m.element.Plain := by
  apply Element.Plain.seq
  intro e he
  rcases flat_or_mem_body he with hf | hb
  · exact hf.plain
  · exact h e hb

theorem height_element (m : Module) : m.element.height = Element.heightAll m.body := by
  apply Nat.le_antisymm
  · apply Element.heightAll_le
    intro e he
    rcases flat_or_mem_body he with hf | hb
    · rw [hf.height]
      exact Nat.zero_le _
    · exact Element.height_le_heightAll hb
  · apply Element.heightAll_le
    intro e he
    apply Element.height_le_heightAll
    simp [mem_definitions_of_mem_body he]

end Module

/-- How far flushes may nest does not matter to an element that runs none. -/
theorem Element.emit_eq_run {σ ε : Type} (out : Sink σ ε) (e : Element) (w : Writer σ) :
    ∃ flush, e.emit out w = e.run out flush w := by
  unfold Element.emit
  cases max e.rank (registeredRank w.elements) with
  | zero => exact ⟨.done, rfl⟩
  | succ level => exact ⟨Writer.flushWith (emitAt out level), rfl⟩

theorem Element.Built.plain {e : Element} (h : e.Built) : e.Plain := by
  induction h with
  | absent => exact flat_empty.plain
  | text s => exact .text s
  | stack lines => exact (flat_stack lines).plain
  | blankLine => exact flat_blankLine.plain
  | line s => exact (flat_line s).plain
  | pass => exact (flat_line _).plain
  | assign target value => exact (flat_line _).plain
  | seq _ ih => exact .seq ih
  | returns value => exact (flat_returns value).plain
  | comment s => exact (flat_comment s).plain
  | docstring s => exact (flat_docstring s).plain
  | parameters p => exact .text p.text
  | decorator d => exact d.flat_element.plain
  | functionDef f _ ih => exact Function.plain_element ih
  | classDef c _ ih => exact Class.plain_element ih
  | conditional keyword c _ _ _ hc hb ho => exact Conditional.plain_elementAs keyword hc hb ho
  | otherwise body _ ih => exact plain_otherwiseElement ih
  | imports i => exact i.flat_element.plain
  | module m _ ih => exact Module.plain_element ih

end Stencil
