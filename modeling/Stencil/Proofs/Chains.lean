import Stencil.Proofs.Alone

/-! The text of a conditional that is built call by call. Children, branches and the branch for all
other cases are kept apart from each other, so it does not matter how the calls are mixed, and
each branch begins a line at the depth of the first one, as it does alone. -/

namespace Stencil

variable {σ ε : Type}

/-- A call in the building of a conditional. What it attaches has no further branches. -/
inductive BranchCall where
  | child (e : Element)
  | elif (b : Branch)
  | orElse (body : List Element)

namespace BranchCall

def child? : BranchCall → Option Element
  | .child e => some e
  | _ => none

def elif? : BranchCall → Option Branch
  | .elif b => some b
  | _ => none

def orElse? : BranchCall → Option (List Element)
  | .orElse body => some body
  | _ => none

/-- All that the call brings comes from the library. -/
structure Built (call : BranchCall) : Prop where
  child : ∀ e ∈ call.child?, e.Built
  elif : ∀ b ∈ call.elif?, b.condition.Built ∧ ∀ e ∈ b.body, e.Built
  orElse : ∀ body ∈ call.orElse?, ∀ e ∈ body, e.Built

end BranchCall

namespace Conditional

def call (c : Conditional) : BranchCall → Conditional
  | .child e => c.child e
  | .elif b => c.elif { first := b }
  | .orElse body => c.orElse body

def ofCalls (condition : Element) (calls : List BranchCall) : Conditional :=
  calls.foldl call { first := { condition := condition } }

theorem call_eq (c : Conditional) (call : BranchCall) :
    c.call call =
      { first := { c.first with body := c.first.body ++ call.child?.toList }
        elifs := c.elifs ++ call.elif?.toList
        otherwise := call.orElse?.or c.otherwise } := by
  obtain ⟨⟨condition, body⟩, elifs, otherwise⟩ := c
  cases call with
  | child e =>
    simp [Conditional.call, child, BranchCall.child?, BranchCall.elif?, BranchCall.orElse?]
  | elif b =>
    cases otherwise <;>
      simp [Conditional.call, elif, BranchCall.child?, BranchCall.elif?, BranchCall.orElse?]
  | orElse rest =>
    simp [Conditional.call, orElse, BranchCall.child?, BranchCall.elif?, BranchCall.orElse?]

theorem foldl_call (c : Conditional) (calls : List BranchCall) :
    calls.foldl call c =
      { first := { c.first with body := c.first.body ++ calls.filterMap BranchCall.child? }
        elifs := c.elifs ++ calls.filterMap BranchCall.elif?
        otherwise := (calls.filterMap BranchCall.orElse?).getLast?.or c.otherwise } := by
  induction calls generalizing c with
  | nil => simp
  | cons call calls ih =>
    have hchildren : c.first.body ++ call.child?.toList ++ calls.filterMap BranchCall.child? =
        c.first.body ++ (call :: calls).filterMap BranchCall.child? := by
      rw [List.filterMap_cons]
      cases call.child? <;> simp
    have helifs : c.elifs ++ call.elif?.toList ++ calls.filterMap BranchCall.elif? =
        c.elifs ++ (call :: calls).filterMap BranchCall.elif? := by
      rw [List.filterMap_cons]
      cases call.elif? <;> simp
    -- the branch that was attached last hides those before
    have hotherwise : (calls.filterMap BranchCall.orElse?).getLast?.or
          (call.orElse?.or c.otherwise) =
        ((call :: calls).filterMap BranchCall.orElse?).getLast?.or c.otherwise := by
      rw [List.filterMap_cons]
      cases call.orElse? with
      | none => simp
      | some body =>
        cases h : (calls.filterMap BranchCall.orElse?).getLast? <;> simp [List.getLast?_cons, h]
    rw [List.foldl_cons, ih, call_eq, hchildren, helifs, hotherwise]

theorem ofCalls_eq (condition : Element) (calls : List BranchCall) :
    ofCalls condition calls =
      { first := { condition := condition, body := calls.filterMap BranchCall.child? }
        elifs := calls.filterMap BranchCall.elif?
        otherwise := (calls.filterMap BranchCall.orElse?).getLast? } := by
  rw [ofCalls, foldl_call]
  simp

end Conditional

/-- The children alone one level deeper with the line ended behind them, or `pass` if they write
nothing. -/
def bodyAlone (unit terminator : String) (depth : Nat) (children : List Element) : String :=
  let inner := (Element.seq children).alone unit terminator (depth + 1)
  if inner.target = "" then repeated unit (depth + 1) ++ "pass" ++ terminator
  else inner.target ++ if inner.atLineStart then "" else terminator

def Branch.textAlone (unit terminator : String) (depth : Nat) (keyword : String) (b : Branch) :
    String :=
  ((b.header keyword).alone unit terminator depth).target ++ bodyAlone unit terminator depth b.body

def otherwiseAlone (unit terminator : String) (depth : Nat) (body : List Element) : String :=
  repeated unit depth ++ "else:" ++ terminator ++ bodyAlone unit terminator depth body

section Texts

variable {unit terminator : String} {depth : Nat}

theorem Element.shown_page_body_eq_alone {children : List Element}
    (hp : ∀ e ∈ children, e.Plain) (ht : terminator ≠ "")
    (hd : depth + (Element.heightAll children + 1) ≤ maxDepth) :
    (Element.body children .pass).page.shown unit terminator depth =
      bodyAlone unit terminator depth children := by
  have hheight : depth + 1 + (Element.seq children).height ≤ maxDepth := by
    rw [Element.height]
    omega
  obtain ⟨htarget, hstart⟩ := (Element.Plain.seq hp).alone_eq unit ht hheight
  rw [shown_page_body, bodyAlone, htarget, hstart]
  simp only [Page.shown_eq_empty_iff ht]

theorem Branch.closed_header (keyword : String) (b : Branch) : (b.header keyword).Closed :=
  fun _ => rfl

theorem Branch.plain_header {keyword : String} {b : Branch} (h : b.condition.Plain) :
    (b.header keyword).Plain := by
  apply Element.Plain.seq
  simp [h, Element.Plain.text, Element.Plain.lineFeed]

theorem Branch.height_header (keyword : String) (b : Branch) :
    (b.header keyword).height = b.condition.height := by
  simp [Branch.header, Element.height, Element.heightAll]

theorem Branch.closed_element (keyword : String) (b : Branch) : (b.element keyword).Closed :=
  fun _ => Page.current_freshLine _

theorem Branch.shown_page_element {keyword : String} {b : Branch} (hc : b.condition.Plain)
    (hb : ∀ e ∈ b.body, e.Plain) (ht : terminator ≠ "")
    (hd : depth + (b.element keyword).height ≤ maxDepth) :
    (b.element keyword).page.shown unit terminator depth =
      b.textAlone unit terminator depth keyword := by
  have hheight := b.height_element keyword
  have hparts : ∀ e ∈ [b.header keyword, .body b.body .pass], e.Closed := by
    simp [b.closed_header keyword, Element.closed_body]
  have hpage : (b.element keyword).page =
      (Element.seq [b.header keyword, .body b.body .pass]).page := rfl
  have hcondition : depth + (b.header keyword).height ≤ maxDepth := by
    rw [b.height_header]
    omega
  have hheader : ((b.header keyword).alone unit terminator depth).target =
      (b.header keyword).page.shown unit terminator depth :=
    ((Branch.plain_header hc).alone_eq unit ht hcondition).1
  have hbody : (Element.body b.body .pass).page.shown unit terminator depth =
      bodyAlone unit terminator depth b.body := Element.shown_page_body_eq_alone hb ht (by omega)
  rw [hpage, Element.shown_page_seq unit terminator hparts, Branch.textAlone, hheader, ← hbody]
  simp

theorem closed_otherwiseElement (body : List Element) : (otherwiseElement body).Closed :=
  fun _ => Page.current_freshLine _

theorem shown_page_otherwiseElement {body : List Element} (hb : ∀ e ∈ body, e.Plain)
    (ht : terminator ≠ "") (hd : depth + (otherwiseElement body).height ≤ maxDepth) :
    (otherwiseElement body).page.shown unit terminator depth =
      otherwiseAlone unit terminator depth body := by
  rw [height_otherwiseElement] at hd
  have hparts : ∀ e ∈ [Element.line "else:", .body body .pass], e.Closed := by
    simp [Element.closed_line, Element.closed_body]
  have hline : (Element.line "else:").page.shown unit terminator depth =
      repeated unit depth ++ "else:" ++ terminator := Element.shown_page_line (by decide)
  rw [otherwiseElement, Element.shown_page_seq unit terminator hparts, otherwiseAlone,
    ← Element.shown_page_body_eq_alone hb ht hd, ← hline]
  simp

end Texts

namespace Conditional

theorem closed_of_mem_elementAs {c : Conditional} {keyword : String} {e : Element}
    (he : e ∈ c.first.element keyword :: c.elifs.map (Branch.element "elif")
      ++ (c.otherwise.map otherwiseElement).toList) : e.Closed := by
  simp only [List.cons_append, List.mem_cons, List.mem_append, List.mem_map, Option.mem_toList,
    Option.map_eq_some_iff] at he
  rcases he with rfl | ⟨b, _, rfl⟩ | ⟨body, _, rfl⟩
  · exact c.first.closed_element keyword
  · exact b.closed_element "elif"
  · exact closed_otherwiseElement body

theorem shown_page_elementAs {c : Conditional} {keyword unit terminator : String} {depth : Nat}
    (h : (Block.conditional keyword c).Built) (ht : terminator ≠ "")
    (hd : depth + (c.elementAs keyword).height ≤ maxDepth) :
    (c.elementAs keyword).page.shown unit terminator depth =
      String.join (c.first.textAlone unit terminator depth keyword ::
        c.elifs.map (Branch.textAlone unit terminator depth "elif")
          ++ (c.otherwise.map (otherwiseAlone unit terminator depth)).toList) := by
  obtain ⟨hc, hb, ho⟩ : (∀ b ∈ c.first :: c.elifs, b.condition.Built) ∧
      (∀ b ∈ c.first :: c.elifs, ∀ e ∈ b.body, e.Built) ∧
      ∀ body ∈ c.otherwise, ∀ e ∈ body, e.Built := by
    cases h with
    | conditional hc hb ho => exact ⟨hc, hb, ho⟩
  have hheight : ∀ e ∈ c.first.element keyword :: c.elifs.map (Branch.element "elif")
      ++ (c.otherwise.map otherwiseElement).toList, depth + e.height ≤ maxDepth := by
    intro e he
    have hle : e.height ≤ (c.elementAs keyword).height := Element.height_le_heightAll he
    omega
  have hbranch : ∀ b ∈ c.first :: c.elifs, ∀ word, depth + (b.element word).height ≤ maxDepth →
      (b.element word).page.shown unit terminator depth =
        b.textAlone unit terminator depth word := by
    intro b hm word hle
    exact Branch.shown_page_element (hc b hm).plain (fun e he => (hb b hm e he).plain) ht hle
  have hfirst : (c.first.element keyword).page.shown unit terminator depth =
      c.first.textAlone unit terminator depth keyword :=
    hbranch c.first (by simp) keyword (hheight _ (by simp))
  have helifs : c.elifs.map (fun b => (b.element "elif").page.shown unit terminator depth) =
      c.elifs.map (Branch.textAlone unit terminator depth "elif") := by
    apply List.map_congr_left
    intro b hm
    have hmem : b.element "elif" ∈ c.elifs.map (Branch.element "elif") := List.mem_map_of_mem hm
    exact hbranch b (by simp [hm]) "elif"
      (hheight _ (List.mem_append_left _ (List.mem_cons_of_mem _ hmem)))
  have hotherwise : c.otherwise.map
        (fun body => (otherwiseElement body).page.shown unit terminator depth) =
      c.otherwise.map (otherwiseAlone unit terminator depth) := by
    cases hother : c.otherwise with
    | none => rfl
    | some body =>
      have hbody : (otherwiseElement body).page.shown unit terminator depth =
          otherwiseAlone unit terminator depth body :=
        shown_page_otherwiseElement (fun e he => (ho body hother e he).plain) ht
          (hheight _ (by simp [hother]))
      simp [hbody]
  rw [elementAs, Element.shown_page_seq unit terminator fun _ => closed_of_mem_elementAs,
    List.map_append, List.map_cons, List.map_map, hfirst, ← helifs, ← hotherwise]
  congr 2
  cases c.otherwise <;> rfl

theorem built_ofCalls {condition : Element} {calls : List BranchCall} (hc : condition.Built)
    (hcalls : ∀ call ∈ calls, call.Built) :
    (Block.conditional "if" (ofCalls condition calls)).Built := by
  have hchildren : ∀ e ∈ calls.filterMap BranchCall.child?, e.Built := by
    intro e he
    obtain ⟨call, hm, hcall⟩ := List.mem_filterMap.mp he
    exact (hcalls call hm).child e hcall
  have helifs : ∀ b ∈ calls.filterMap BranchCall.elif?,
      b.condition.Built ∧ ∀ e ∈ b.body, e.Built := by
    intro b hb
    obtain ⟨call, hm, hcall⟩ := List.mem_filterMap.mp hb
    exact (hcalls call hm).elif b hcall
  have hbodies : ∀ body ∈ (calls.filterMap BranchCall.orElse?).getLast?, ∀ e ∈ body, e.Built := by
    intro body hbody
    obtain ⟨call, hm, hcall⟩ := List.mem_filterMap.mp (List.mem_of_getLast? hbody)
    exact (hcalls call hm).orElse body hcall
  rw [ofCalls_eq]
  exact .conditional (List.forall_mem_cons.mpr ⟨hc, fun b hb => (helifs b hb).1⟩)
    (List.forall_mem_cons.mpr ⟨hchildren, fun b hb => (helifs b hb).2⟩) hbodies

/-- The first branch with the children in the order of their calls, a branch for each that was
attached, in order, and the branch for all other cases that was attached last. -/
def chainText (unit terminator : String) (depth : Nat) (condition : Element)
    (calls : List BranchCall) : String :=
  let children := calls.filterMap BranchCall.child?
  let first := Branch.textAlone unit terminator depth "if" { condition, body := children }
  let elifs := calls.filterMap BranchCall.elif?
  let last := (calls.filterMap BranchCall.orElse?).getLast?
  String.join (first :: elifs.map (Branch.textAlone unit terminator depth "elif")
    ++ (last.map (otherwiseAlone unit terminator depth)).toList)

/-- However the calls are mixed, the text is that of the branches in order, each with its header and
its body as they are written alone. So calls that are mixed in another way, but come in the same
order within each kind, make no difference. -/
theorem chain_written {condition : Element} {calls : List BranchCall} (hc : condition.Built)
    (hcalls : ∀ call ∈ calls, call.Built) {out : Sink σ ε}
    (hout : ∀ s target, ∃ last, out.append s target = .done last) {w : Writer σ}
    (hs : w.atLineStart = true) (ht : w.terminator ≠ "")
    (hd : w.depth + (ofCalls condition calls).element.height ≤ maxDepth) :
    Writes out w (chainText w.unit w.terminator w.depth condition calls)
      ((ofCalls condition calls).element.emit out w) ∧
    ∀ others : List BranchCall,
      others.filterMap BranchCall.child? = calls.filterMap BranchCall.child? →
      others.filterMap BranchCall.elif? = calls.filterMap BranchCall.elif? →
      others.filterMap BranchCall.orElse? = calls.filterMap BranchCall.orElse? →
      ∀ (τ δ : Type) (into : Sink τ δ) (v : Writer τ),
        (ofCalls condition others).element.emit into v =
          (ofCalls condition calls).element.emit into v := by
  have hbuilt := built_ofCalls hc hcalls
  have hclosed : (ofCalls condition calls).element.Closed :=
    Element.closed_seq fun _ => closed_of_mem_elementAs
  constructor
  · have hwrites := hbuilt.element.plain.writes hclosed hout hs ht hd
    rw [Block.element, shown_page_elementAs hbuilt ht hd] at hwrites
    rw [ofCalls_eq] at hwrites ⊢
    exact hwrites
  · intro others hchildren helifs helses τ δ into v
    rw [ofCalls_eq, ofCalls_eq, hchildren, helifs, helses]

theorem chain_written_mixed :
    let b : Branch := { condition := .stack ["x or", "y"], body := [.empty] }
    let calls : List BranchCall :=
      [.orElse [.line "old()"], .child (.line "f()"), .elif b, .orElse [.text "g()"],
        .child (.text "h()"), .elif { condition := .text "z", body := [.line "", .text "i()"] }]
    let sorted : List BranchCall :=
      [.child (.line "f()"), .child (.text "h()"), .elif b,
        .elif { condition := .text "z", body := [.line "", .text "i()"] },
        .orElse [.line "old()"], .orElse [.text "g()"]]
    let w : Writer String :=
      { unit := "\t", terminator := "\r\n", depth := 1, written := 3, target := "old" }
    (∀ call ∈ calls, call.Built) ∧
      w.depth + (ofCalls (.text "a") calls).element.height ≤ maxDepth ∧
      Writes (Sink.text : Sink String Empty) w
        ("\tif a:\r\n\t\tf()\r\n\t\th()\r\n\telif x or\r\n\ty:\r\n\t\tpass\r\n" ++
          "\telif z:\r\n\r\n\t\ti()\r\n\telse:\r\n\t\tg()\r\n")
        ((ofCalls (.text "a") calls).element.emit (Sink.text : Sink String Empty) w) ∧
      (ofCalls (.text "a") sorted).element.emit (Sink.text : Sink String Empty) w =
        (ofCalls (.text "a") calls).element.emit (Sink.text : Sink String Empty) w := by
  intro b calls sorted w
  have hcalls : ∀ call ∈ calls, call.Built := by
    intro call hm
    simp only [calls, List.mem_cons, List.not_mem_nil, or_false] at hm
    rcases hm with rfl | rfl | rfl | rfl | rfl | rfl <;> constructor <;>
      simp [b, BranchCall.child?, BranchCall.elif?, BranchCall.orElse?, Element.Built.line,
        Element.Built.text, Element.Built.stack, Element.Built.absent]
  have hd : w.depth + (ofCalls (.text "a") calls).element.height ≤ maxDepth := by decide
  have htext : chainText w.unit w.terminator w.depth (.text "a") calls =
      "\tif a:\r\n\t\tf()\r\n\t\th()\r\n\telif x or\r\n\ty:\r\n\t\tpass\r\n" ++
        "\telif z:\r\n\r\n\t\ti()\r\n\telse:\r\n\t\tg()\r\n" := by decide +kernel
  obtain ⟨hwrites, hsame⟩ :=
    chain_written (.text "a") hcalls (Sink.text_accepts Empty) (w := w) rfl (by decide) hd
  rw [htext] at hwrites
  exact ⟨hcalls, hd, hwrites, hsame sorted rfl rfl rfl _ _ _ w⟩

end Conditional

end Stencil
