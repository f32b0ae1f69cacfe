import Stencil.Transcript

/-! The rules by which a writer works, with a log of what happens. An element amounts to tasks
at the writer that it meets, and every task has its rule. No rule bounds how far flushes nest:
a flush visits what is registered, and a visit may flush again. Still the rules lead to one
log and one outcome, and the outcome is that of the emission. -/

namespace Stencil

variable {σ ε : Type}

/-- What a text is offered for. -/
inductive Role where
  | indentation
  | text
  | lineEnd
deriving DecidableEq

/-- A text before the sink and its answer, with the writer's counter after it. -/
structure Offer where
  role : Role
  text : String
  accepted : Bool
  written : UInt64

inductive Activity where
  | offer (offer : Offer)
  | register (element : Element)
  | flush (visits : List Activity)
  /-- What happened while a flush wrote an element, and whether this failed. -/
  | visit (element : Element) (inner : List Activity) (failed : Bool)

/-- A change of the writer that the sink takes no part in. -/
inductive Adjustment where
  | stay
  | openLine
  | indent (levels : Nat)
  | dedent (levels : Nat)
  | reset

inductive Task where
  | adjust (adjustment : Adjustment)
  | offer (role : Role) (s : String)
  | register (element : Element)
  | flush
  | visit (element : Element)
  | element (element : Element)
  | andThen (first second : Task)
  /-- One level deeper. The level is given back also when the task fails. -/
  | scope (inner : Task)
  /-- The element, if no bytes were counted since there were `count`. -/
  | placeholder (count : Nat) (element : Element)
  /-- The task, and after a failure the other one instead of the failure. -/
  | rescue (first second : Task)
  | inspect (choose : View → Task)

namespace Task

def all : List Element → Task
  | [] => .adjust .stay
  | e :: es => (element e).andThen (all es)

def visits : List Element → Task
  | [] => .adjust .stay
  | e :: es => (visit e).andThen (visits es)

def padding (unit : String) : Nat → Task
  | 0 => .adjust .stay
  | levels + 1 => (offer .indentation unit).andThen (padding unit levels)

end Task

def Element.task (w : Writer σ) : Element → Task
  | .text s =>
    if s = "" then .adjust .stay
    else if w.atLineStart then
      ((Task.padding w.unit w.depth).andThen (.adjust .openLine)).andThen (.offer .text s)
    else .offer .text s
  | .lineFeed => .offer .lineEnd w.terminator
  | .freshLine => if w.atLineStart then .adjust .stay else .offer .lineEnd w.terminator
  | .seq parts => .all parts
  | .indented parts => .scope (.all parts)
  | .body children placeholder =>
    (Task.scope ((Task.all children).andThen (.placeholder w.written placeholder))).andThen
      (.element .freshLine)
  | .indent levels => .adjust (.indent levels)
  | .dedent levels => .adjust (.dedent levels)
  | .reset => .adjust .reset
  | .register element => .register element
  | .flush => .flush

namespace Writer

def adjust (w : Writer σ) : Adjustment → Writer σ
  | .stay => w
  | .openLine => { w with atLineStart := false }
  | .indent levels => w.indent levels
  | .dedent levels => w.dedent levels
  | .reset => w.reset

/-- The writer once the sink has accepted a text. -/
def accept (w : Writer σ) (role : Role) (s : String) (target : σ) : Writer σ :=
  match role with
  | .indentation => { w with target := target }
  | .text => { w with target := target, written := w.written + s.utf8ByteSize }
  | .lineEnd =>
    { w with target := target, written := w.written + s.utf8ByteSize, atLineStart := true }

end Writer

def Outcome.isFailed {α : Type} (o : Outcome ε α) : Bool :=
  o.error?.isSome

/-- The task, done by the writer, leaves this log and has this outcome. -/
inductive Performs (out : Sink σ ε) :
    Task → Writer σ → List Activity → Outcome ε (Writer σ) → Prop
  | adjust (a : Adjustment) (w : Writer σ) : Performs out (.adjust a) w [] (.done (w.adjust a))
  | accepted {s : String} {w : Writer σ} {target : σ} (role : Role)
      (h : out.append s w.target = .done target) :
      Performs out (.offer role s) w
        [.offer ⟨role, s, true, (w.accept role s target).bytesWritten⟩]
        (.done (w.accept role s target))
  | refused {s : String} {w : Writer σ} {error : ε} {target : σ} (role : Role)
      (h : out.append s w.target = .failed error target) :
      Performs out (.offer role s) w [.offer ⟨role, s, false, w.bytesWritten⟩]
        (.failed error { w with target := target })
  | register (e : Element) (w : Writer σ) :
      Performs out (.register e) w [.register e] (.done (w.register e))
  | flush {w : Writer σ} {log : List Activity} {o : Outcome ε (Writer σ)}
      (h : Performs out (.visits w.elements) { w with elements := [] } log o) :
      Performs out .flush w [.flush log]
        (o.map fun v => { v with elements := w.elements ++ v.elements })
  | visit {e : Element} {w : Writer σ} {log : List Activity} {o : Outcome ε (Writer σ)}
      (h : Performs out (.element e) w log o) :
      Performs out (.visit e) w [.visit e log o.isFailed] o
  | element {e : Element} {w : Writer σ} {log : List Activity} {o : Outcome ε (Writer σ)}
      (h : Performs out (e.task w) w log o) : Performs out (.element e) w log o
  | andThen {t u : Task} {w v : Writer σ} {log more : List Activity} {o : Outcome ε (Writer σ)}
      (ht : Performs out t w log (.done v)) (hu : Performs out u v more o) :
      Performs out (t.andThen u) w (log ++ more) o
  | cutShort {t : Task} {w v : Writer σ} {log : List Activity} {error : ε} (u : Task)
      (ht : Performs out t w log (.failed error v)) :
      Performs out (t.andThen u) w log (.failed error v)
  | scope {t : Task} {w : Writer σ} {log : List Activity} {o : Outcome ε (Writer σ)}
      (h : Performs out t (w.indent 1) log o) :
      Performs out (.scope t) w log (o.map (·.dedent 1))
  | missing {e : Element} {w : Writer σ} {count : Nat} {log : List Activity}
      {o : Outcome ε (Writer σ)} (hc : w.written = count)
      (h : Performs out (.element e) w log o) : Performs out (.placeholder count e) w log o
  | present {w : Writer σ} {count : Nat} (e : Element) (hc : w.written ≠ count) :
      Performs out (.placeholder count e) w [] (.done w)
  | unharmed {t : Task} {w v : Writer σ} {log : List Activity} (u : Task)
      (ht : Performs out t w log (.done v)) : Performs out (.rescue t u) w log (.done v)
  | rescued {t u : Task} {w v : Writer σ} {log more : List Activity} {error : ε}
      {o : Outcome ε (Writer σ)} (ht : Performs out t w log (.failed error v))
      (hu : Performs out u v more o) : Performs out (.rescue t u) w (log ++ more) o
  | inspect {choose : View → Task} {w : Writer σ} {log : List Activity}
      {o : Outcome ε (Writer σ)} (h : Performs out (choose w.view) w log o) :
      Performs out (.inspect choose) w log o

theorem Performs.deterministic {out : Sink σ ε} {t : Task} {w : Writer σ}
    {log log' : List Activity} {o o' : Outcome ε (Writer σ)} (h : Performs out t w log o)
    (h' : Performs out t w log' o') : log = log' ∧ o = o' := by
  induction h generalizing log' o' with
  | adjust a w =>
    cases h'
    exact ⟨rfl, rfl⟩
  | accepted role h =>
    cases h' with
    | accepted _ hh =>
      rw [h] at hh
      cases hh
      exact ⟨rfl, rfl⟩
    | refused _ hh =>
      rw [h] at hh
      cases hh
  | refused role h =>
    cases h' with
    | accepted _ hh =>
      rw [h] at hh
      cases hh
    | refused _ hh =>
      rw [h] at hh
      cases hh
      exact ⟨rfl, rfl⟩
  | register e w =>
    cases h'
    exact ⟨rfl, rfl⟩
  | flush h ih =>
    cases h' with
    | flush hh =>
      obtain ⟨rfl, rfl⟩ := ih hh
      exact ⟨rfl, rfl⟩
  | visit h ih =>
    cases h' with
    | visit hh =>
      obtain ⟨rfl, rfl⟩ := ih hh
      exact ⟨rfl, rfl⟩
  | element h ih =>
    cases h' with
    | element hh => exact ih hh
  | andThen ht hu iht ihu =>
    cases h' with
    | andThen ht' hu' =>
      obtain ⟨rfl, hv⟩ := iht ht'
      cases hv
      obtain ⟨rfl, rfl⟩ := ihu hu'
      exact ⟨rfl, rfl⟩
    | cutShort _ ht' => cases (iht ht').2
  | cutShort u ht iht =>
    cases h' with
    | andThen ht' hu' => cases (iht ht').2
    | cutShort _ ht' => exact iht ht'
  | scope h ih =>
    cases h' with
    | scope hh =>
      obtain ⟨rfl, rfl⟩ := ih hh
      exact ⟨rfl, rfl⟩
  | missing hc h ih =>
    cases h' with
    | missing _ hh => exact ih hh
    | present _ hne => exact absurd hc hne
  | present e hne =>
    cases h' with
    | missing hc _ => exact absurd hc hne
    | present _ _ => exact ⟨rfl, rfl⟩
  | unharmed u ht iht =>
    cases h' with
    | unharmed _ ht' => exact iht ht'
    | rescued ht' hu' => cases (iht ht').2
  | rescued ht hu iht ihu =>
    cases h' with
    | unharmed _ ht' => cases (iht ht').2
    | rescued ht' hu' =>
      obtain ⟨rfl, hv⟩ := iht ht'
      cases hv
      obtain ⟨rfl, rfl⟩ := ihu hu'
      exact ⟨rfl, rfl⟩
  | inspect h ih =>
    cases h' with
    | inspect hh => exact ih hh

section Ranks

/-- Registrations nest less than `n` deep in the elements that the task can register. -/
def Task.Below (n : Nat) : Task → Prop
  | .adjust _ | .offer _ _ | .flush => True
  | .register e => e.rank < n
  | .visit e | .element e | .placeholder _ e => e.rank ≤ n
  | .andThen t u | .rescue t u => t.Below n ∧ u.Below n
  | .scope t => t.Below n
  | .inspect choose => ∀ view, (choose view).Below n

def Writer.Below (n : Nat) (w : Writer σ) : Prop :=
  ∀ e ∈ w.elements, e.rank < n

variable {n : Nat}

theorem Element.rankAll_le_iff (es : List Element) :
    Element.rank.rankAll es ≤ n ↔ ∀ e ∈ es, e.rank ≤ n := by
  induction es with
  | nil => simp [Element.rank.rankAll]
  | cons e es ih => rw [Element.rank.rankAll, Nat.max_le, ih, List.forall_mem_cons]

theorem Element.registeredRank_le_iff (es : List Element) :
    Element.registeredRank es ≤ n ↔ ∀ e ∈ es, e.rank < n := by
  induction es with
  | nil => simp [Element.registeredRank]
  | cons e es ih =>
    rw [Element.registeredRank, Nat.max_le, Nat.add_one_le_iff, ih, List.forall_mem_cons]

theorem Task.below_all {es : List Element} (h : ∀ e ∈ es, e.rank ≤ n) :
    (Task.all es).Below n := by
  induction es with
  | nil => trivial
  | cons e es ih => exact ⟨h e (by simp), ih fun a ha => h a (by simp [ha])⟩

theorem Task.below_visits {es : List Element} (h : ∀ e ∈ es, e.rank ≤ n) :
    (Task.visits es).Below n := by
  induction es with
  | nil => trivial
  | cons e es ih => exact ⟨h e (by simp), ih fun a ha => h a (by simp [ha])⟩

theorem Task.below_padding (unit : String) (levels : Nat) :
    (Task.padding unit levels).Below n := by
  induction levels with
  | zero => trivial
  | succ levels ih => exact ⟨trivial, ih⟩

theorem Element.below_task {e : Element} (w : Writer σ) (h : e.rank ≤ n) :
    (e.task w).Below n := by
  cases e with
  | text s =>
    simp only [Element.task]
    split
    · trivial
    · split
      · exact ⟨⟨Task.below_padding w.unit w.depth, trivial⟩, trivial⟩
      · trivial
  | freshLine =>
    simp only [Element.task]
    split <;> trivial
  | seq parts => exact Task.below_all ((Element.rankAll_le_iff parts).mp h)
  | indented parts => exact Task.below_all ((Element.rankAll_le_iff parts).mp h)
  | body children placeholder =>
    have hboth : Element.rank.rankAll children ≤ n ∧ placeholder.rank ≤ n := Nat.max_le.mp h
    exact ⟨⟨Task.below_all ((Element.rankAll_le_iff children).mp hboth.1), hboth.2⟩,
      Nat.zero_le n⟩
  | register element => exact h
  | lineFeed | indent _ | dedent _ | reset | flush => trivial

theorem Performs.keeps_below {out : Sink σ ε} {t : Task} {w : Writer σ} {log : List Activity}
    {o : Outcome ε (Writer σ)} (h : Performs out t w log o) (ht : t.Below n) (hw : w.Below n) :
    o.state.Below n := by
  induction h with
  | adjust a w => cases a <;> exact hw
  | accepted role h => cases role <;> exact hw
  | refused role h => exact hw
  | register e w =>
    intro a ha
    rcases List.mem_append.mp ha with ha | ha
    · exact hw a ha
    · rw [List.mem_singleton.mp ha]
      exact ht
  | @flush w log o h ih =>
    have hvisits : (Task.visits w.elements).Below n :=
      Task.below_visits fun e he => Nat.le_of_lt (hw e he)
    have hinner := ih hvisits (by simp [Writer.Below])
    intro a ha
    rw [Outcome.state_map] at ha
    rcases List.mem_append.mp ha with ha | ha
    · exact hw a ha
    · exact hinner a ha
  | visit h ih => exact ih ht hw
  | @element e w log o h ih => exact ih (Element.below_task w ht) hw
  | andThen ht' hu iht ihu => exact ihu ht.2 (iht ht.1 hw)
  | cutShort u ht' iht => exact iht ht.1 hw
  | scope h ih =>
    rw [Outcome.state_map]
    exact ih ht hw
  | missing hc h ih => exact ih ht hw
  | present e hc => exact hw
  | unharmed u ht' iht => exact iht ht.1 hw
  | rescued ht' hu iht ihu => exact ihu ht.2 (iht ht.1 hw)
  | @inspect choose w log o h ih => exact ih (ht w.view) hw

end Ranks

/-- The outcome follows from the rules, with some log. -/
def Reaches (out : Sink σ ε) (t : Task) (w : Writer σ) (o : Outcome ε (Writer σ)) : Prop :=
  ∃ log, Performs out t w log o

section Reaching

variable {out : Sink σ ε} {flush : Writer σ → Outcome ε (Writer σ)} {n : Nat}

theorem Reaches.andThen {t u : Task} {w : Writer σ} {o : Outcome ε (Writer σ)}
    {next : Writer σ → Outcome ε (Writer σ)} (ho : Reaches out t w o)
    (hn : ∀ v, o = .done v → Reaches out u v (next v)) :
    Reaches out (t.andThen u) w (o.andThen next) := by
  obtain ⟨log, h⟩ := ho
  cases o with
  | done v =>
    obtain ⟨more, hu⟩ := hn v rfl
    exact ⟨log ++ more, h.andThen hu⟩
  | failed error v => exact ⟨log, h.cutShort u⟩

theorem reaches_stay (w : Writer σ) : Reaches out (.adjust .stay) w (.done w) :=
  ⟨[], .adjust .stay w⟩

theorem Reaches.keeps_below {t : Task} {w : Writer σ} {o : Outcome ε (Writer σ)}
    (h : Reaches out t w o) (ht : t.Below n) (hw : w.Below n) : o.state.Below n := by
  obtain ⟨log, h⟩ := h
  exact h.keeps_below ht hw

theorem reaches_indentation (s : String) (w : Writer σ) :
    Reaches out (.offer .indentation s) w (w.offer out s) := by
  unfold Writer.offer
  cases hs : out.append s w.target with
  | done target => exact ⟨_, .accepted .indentation hs⟩
  | failed error target => exact ⟨_, .refused .indentation hs⟩

theorem reaches_text (s : String) (w : Writer σ) :
    Reaches out (.offer .text s) w (w.offerCounted out s) := by
  unfold Writer.offerCounted Writer.offer
  cases hs : out.append s w.target with
  | done target => exact ⟨_, .accepted .text hs⟩
  | failed error target => exact ⟨_, .refused .text hs⟩

theorem reaches_lineEnd (w : Writer σ) :
    Reaches out (.offer .lineEnd w.terminator) w (w.lineFeed out) := by
  unfold Writer.lineFeed Writer.offerCounted Writer.offer
  cases hs : out.append w.terminator w.target with
  | done target => exact ⟨_, .accepted .lineEnd hs⟩
  | failed error target => exact ⟨_, .refused .lineEnd hs⟩

theorem Writer.unit_of_offer {s : String} {w v : Writer σ} (h : w.offer out s = .done v) :
    v.unit = w.unit := by
  have hs : (w.offer out s).state.unit = w.unit := by simp [Writer.offer]
  rw [h] at hs
  exact hs

theorem reaches_padding (levels : Nat) (w : Writer σ) :
    Reaches out (.padding w.unit levels) w (w.pad out levels) := by
  induction levels generalizing w with
  | zero => exact reaches_stay w
  | succ levels ih =>
    refine (reaches_indentation w.unit w).andThen fun v hv => ?_
    rw [← Writer.unit_of_offer hv]
    exact ih v

theorem reaches_write (s : String) (w : Writer σ) :
    Reaches out ((Element.text s).task w) w (w.write out s) := by
  unfold Writer.write
  simp only [Element.task]
  by_cases hs : s = ""
  · simpa [hs] using reaches_stay w
  · have hempty : s.isEmpty = false := by simpa using hs
    simp only [hs, hempty, if_false, Bool.false_eq_true]
    unfold Writer.openLine
    by_cases hw : w.atLineStart = true
    · simp only [hw, if_true]
      have hopen : ∀ v : Writer σ, Reaches out (.adjust .openLine) v
          (.done { v with atLineStart := false }) := fun v => ⟨[], .adjust .openLine v⟩
      exact ((reaches_padding w.depth w).andThen fun v _ => hopen v).andThen
        fun v _ => reaches_text s v
    · simp only [hw]
      exact reaches_text s w

theorem Reaches.element {e : Element} {w : Writer σ} {o : Outcome ε (Writer σ)}
    (h : Reaches out (e.task w) w o) : Reaches out (.element e) w o := by
  obtain ⟨log, h⟩ := h
  exact ⟨log, h.element⟩

theorem reaches_freshLine (w : Writer σ) :
    Reaches out (.element .freshLine) w (w.freshLine out) := by
  apply Reaches.element
  unfold Writer.freshLine
  simp only [Element.task]
  split
  · exact reaches_stay w
  · exact reaches_lineEnd w

theorem Reaches.scope {t : Task} {w : Writer σ} {o : Outcome ε (Writer σ)}
    (h : Reaches out t (w.indent 1) o) : Reaches out (.scope t) w (o.map (·.dedent 1)) := by
  obtain ⟨log, h⟩ := h
  exact ⟨log, h.scope⟩

theorem Reaches.inspect {choose : View → Task} {w : Writer σ} {o : Outcome ε (Writer σ)}
    (h : Reaches out (choose w.view) w o) : Reaches out (.inspect choose) w o := by
  obtain ⟨log, h⟩ := h
  exact ⟨log, h.inspect⟩

mutual

/-- Running an element follows the rules, if its flushes do. -/
theorem Element.reaches_run
    (hf : ∀ v : Writer σ, v.Below n → Reaches out .flush v (flush v)) :
    (e : Element) → (w : Writer σ) → e.rank ≤ n → w.Below n →
      Reaches out (.element e) w (e.run out flush w)
  | .text s, w, _, _ => (reaches_write s w).element
  | .lineFeed, w, _, _ => (reaches_lineEnd w).element
  | .freshLine, w, _, _ => reaches_freshLine w
  | .seq parts, w, he, hw => Reaches.element (Element.reaches_runAll hf parts w he hw)
  | .indented parts, w, he, hw =>
    Reaches.element (Reaches.scope (Element.reaches_runAll hf parts (w.indent 1) he hw))
  | .body children placeholder, w, he, hw => by
    have hboth : Element.rank.rankAll children ≤ n ∧ placeholder.rank ≤ n := Nat.max_le.mp he
    have hall := Element.reaches_runAll hf children (w.indent 1) hboth.1 hw
    have hbelow : (Task.all children).Below n :=
      Task.below_all ((Element.rankAll_le_iff children).mp hboth.1)
    have hinner : Reaches out ((Task.all children).andThen (.placeholder w.written placeholder))
        (w.indent 1) ((Element.runAll out flush children (w.indent 1)).andThen fun v =>
          if v.written = w.written then placeholder.run out flush v else .done v) := by
      refine hall.andThen fun v hv => ?_
      have hv' : v.Below n := by
        have hstate := hall.keeps_below hbelow hw
        rw [hv] at hstate
        exact hstate
      split
      · next hc =>
        obtain ⟨log, h⟩ := Element.reaches_run hf placeholder v hboth.2 hv'
        exact ⟨log, h.missing hc⟩
      · next hc => exact ⟨[], .present placeholder hc⟩
    exact Reaches.element (hinner.scope.andThen fun v _ => reaches_freshLine v)
  | .indent levels, w, _, _ => Reaches.element ⟨[], .adjust (.indent levels) w⟩
  | .dedent levels, w, _, _ => Reaches.element ⟨[], .adjust (.dedent levels) w⟩
  | .reset, w, _, _ => Reaches.element ⟨[], .adjust .reset w⟩
  | .register element, w, _, _ => Reaches.element ⟨_, .register element w⟩
  | .flush, w, _, hw => Reaches.element (hf w hw)

theorem Element.reaches_runAll
    (hf : ∀ v : Writer σ, v.Below n → Reaches out .flush v (flush v)) :
    (es : List Element) → (w : Writer σ) → Element.rank.rankAll es ≤ n → w.Below n →
      Reaches out (.all es) w (Element.runAll out flush es w)
  | [], w, _, _ => reaches_stay w
  | e :: es, w, he, hw => by
    have hboth : e.rank ≤ n ∧ Element.rank.rankAll es ≤ n := Nat.max_le.mp he
    have hfirst := Element.reaches_run hf e w hboth.1 hw
    refine hfirst.andThen fun v hv => Element.reaches_runAll hf es v hboth.2 ?_
    have hstate := hfirst.keeps_below hboth.1 hw
    rw [hv] at hstate
    exact hstate

end

theorem reaches_visitAll {visit : Element → Writer σ → Outcome ε (Writer σ)}
    (hv : ∀ (e : Element) (w : Writer σ), e.rank ≤ n → w.Below n →
      Reaches out (.element e) w (visit e w))
    {es : List Element} (hes : ∀ e ∈ es, e.rank ≤ n) (w : Writer σ) (hw : w.Below n) :
    Reaches out (.visits es) w (Writer.flushWith.visitAll visit es w) := by
  induction es generalizing w with
  | nil => exact reaches_stay w
  | cons e es ih =>
    have he := hes e (by simp)
    have hfirst : Reaches out (.visit e) w (visit e w) := by
      obtain ⟨log, h⟩ := hv e w he hw
      exact ⟨_, h.visit⟩
    refine hfirst.andThen fun v hdone => ih (fun a ha => hes a (by simp [ha])) v ?_
    have hstate := hfirst.keeps_below he hw
    rw [hdone] at hstate
    exact hstate

/-- What a flush visits nests registrations less deeply than what may be registered around it,
so each level of flushes can do with one level less. -/
theorem Element.reaches_emitAt (level : Nat) (e : Element) (w : Writer σ) (he : e.rank ≤ level)
    (hw : w.Below level) : Reaches out (.element e) w (e.emitAt out level w) := by
  induction level generalizing e w with
  | zero =>
    refine Element.reaches_run (fun v hv => ?_) e w he hw
    have hnil : v.elements = [] := by
      cases hes : v.elements with
      | nil => rfl
      | cons a es =>
        have ha := hv a (by simp [hes])
        omega
    have hflush : Performs out .flush v [.flush []]
        (.done { v with elements := v.elements ++ [] }) := by
      refine Performs.flush (o := .done { v with elements := [] }) ?_
      rw [hnil]
      exact .adjust .stay _
    rw [List.append_nil] at hflush
    exact ⟨_, hflush⟩
  | succ level ih =>
    refine Element.reaches_run (fun v hv => ?_) e w he hw
    have hes : ∀ a ∈ v.elements, a.rank ≤ level := fun a ha => Nat.le_of_lt_succ (hv a ha)
    obtain ⟨log, h⟩ := reaches_visitAll ih hes { v with elements := [] } (by simp [Writer.Below])
    exact ⟨_, h.flush⟩

theorem Element.reaches_emit (e : Element) (w : Writer σ) :
    Reaches out (.element e) w (e.emit out w) := by
  apply Element.reaches_emitAt
  · exact Nat.le_max_left _ _
  · exact (Element.registeredRank_le_iff w.elements).mp (Nat.le_max_right _ _)

end Reaching

section Sessions

mutual

def Step.task : Step → Task
  | .write e => .element e
  | .scope inner => .scope (Step.tasks inner)
  | .attempt inner rescue => .rescue (Step.tasks inner) (Step.tasks rescue)
  | .inspect choose => .inspect fun view => (choose view).task

def Step.tasks : List Step → Task
  | [] => .adjust .stay
  | step :: steps => step.task.andThen (Step.tasks steps)

end

namespace Entry

@[simp] theorem outcome_ofOutcome (o : Outcome ε (Writer σ)) (inner : List (Entry σ ε)) :
    (ofOutcome o inner).outcome = o := by
  cases o <;> rfl

@[simp] theorem state_outcome (entry : Entry σ ε) : entry.outcome.state = entry.after := by
  unfold outcome
  cases entry.failure <;> rfl

theorem outcome_of_isSome {entry : Entry σ ε} (h : entry.failure.isSome = true) :
    ∃ error, entry.outcome = .failed error entry.after := by
  obtain ⟨error, he⟩ := Option.isSome_iff_exists.mp h
  exact ⟨error, by simp [outcome, he]⟩

theorem outcome_of_not_isSome {entry : Entry σ ε} (h : ¬ entry.failure.isSome = true) :
    entry.outcome = .done entry.after := by
  have he : entry.failure = none := by simpa using h
  simp [outcome, he]

theorem lastOutcome_cons {entry : Entry σ ε} (w : Writer σ) (entries : List (Entry σ ε))
    (h : entry.outcome = .done entry.after) :
    lastOutcome w (entry :: entries) = lastOutcome entry.after entries := by
  unfold lastOutcome
  rw [List.getLast?_cons]
  cases entries.getLast? with
  | none => exact h
  | some last => rfl

end Entry

variable {out : Sink σ ε}

mutual

theorem Step.reaches_record : (step : Step) → (w : Writer σ) →
    Reaches out step.task w (step.record out w).outcome
  | .write e, w => by
    rw [Step.record, Entry.outcome_ofOutcome]
    exact e.reaches_emit w
  | .scope inner, w => by
    rw [Step.record, Entry.outcome_ofOutcome]
    exact (Step.reaches_recordScope inner (w.indent 1)).scope
  | .attempt inner rescue, w => by
    obtain ⟨log, hinner⟩ := Step.reaches_recordScope inner w
    simp only [Step.record, Step.task]
    cases hlast : Entry.lastOutcome w (Step.recordScope out inner w) with
    | done v =>
      rw [hlast] at hinner
      rw [Entry.outcome_ofOutcome]
      exact ⟨log, hinner.unharmed (Step.tasks rescue)⟩
    | failed error v =>
      rw [hlast] at hinner
      rw [Entry.outcome_ofOutcome]
      obtain ⟨more, hrescue⟩ := Step.reaches_recordScope rescue v
      exact ⟨log ++ more, hinner.rescued hrescue⟩
  | .inspect choose, w => by
    rw [Step.record]
    exact (Step.reaches_record (choose w.view) w).inspect

theorem Step.reaches_recordScope : (steps : List Step) → (w : Writer σ) →
    Reaches out (Step.tasks steps) w (Entry.lastOutcome w (Step.recordScope out steps w))
  | [], w => reaches_stay w
  | step :: steps, w => by
    obtain ⟨log, hfirst⟩ := Step.reaches_record step w
    simp only [Step.recordScope]
    split
    · next hs =>
      obtain ⟨error, he⟩ := Entry.outcome_of_isSome hs
      rw [he] at hfirst
      have hcut : Entry.lastOutcome w [step.record out w] =
          .failed error (step.record out w).after := he
      rw [hcut]
      exact ⟨log, hfirst.cutShort (Step.tasks steps)⟩
    · next hs =>
      have hdone := Entry.outcome_of_not_isSome hs
      rw [hdone] at hfirst
      rw [Entry.lastOutcome_cons w _ hdone]
      obtain ⟨more, hrest⟩ := Step.reaches_recordScope steps (step.record out w).after
      exact ⟨log ++ more, hfirst.andThen hrest⟩

end

/-- Steps one after the other, whether they fail or not: the log and the writer at the end. -/
inductive Session (out : Sink σ ε) : List Step → Writer σ → List Activity → Writer σ → Prop
  | nil (w : Writer σ) : Session out [] w [] w
  | cons {step : Step} {steps : List Step} {w v : Writer σ} {log more : List Activity}
      {o : Outcome ε (Writer σ)} (hfirst : Performs out step.task w log o)
      (hrest : Session out steps o.state more v) : Session out (step :: steps) w (log ++ more) v

theorem Session.deterministic {steps : List Step} {w v v' : Writer σ}
    {log log' : List Activity} (h : Session out steps w log v)
    (h' : Session out steps w log' v') : log = log' ∧ v = v' := by
  induction h generalizing log' v' with
  | nil w =>
    cases h'
    exact ⟨rfl, rfl⟩
  | cons hfirst hrest ih =>
    cases h' with
    | cons hfirst' hrest' =>
      obtain ⟨rfl, rfl⟩ := hfirst.deterministic hfirst'
      obtain ⟨rfl, rfl⟩ := ih hrest'
      exact ⟨rfl, rfl⟩

/-- The writer at the end of a transcript. -/
def sessionEnd (out : Sink σ ε) (steps : List Step) (w : Writer σ) : Writer σ :=
  (Entry.lastOutcome w (transcript out steps w)).state

theorem sessionEnd_cons (step : Step) (steps : List Step) (w : Writer σ) :
    sessionEnd out (step :: steps) w = sessionEnd out steps (step.record out w).after := by
  unfold sessionEnd Entry.lastOutcome
  rw [transcript, List.getLast?_cons]
  cases (transcript out steps (step.record out w).after).getLast? with
  | none => exact Entry.state_outcome _
  | some entry => rfl

theorem exists_session (out : Sink σ ε) (steps : List Step) (w : Writer σ) :
    ∃ log, Session out steps w log (sessionEnd out steps w) := by
  induction steps generalizing w with
  | nil => exact ⟨[], .nil w⟩
  | cons step steps ih =>
    obtain ⟨log, hfirst⟩ : Reaches out step.task w (step.record out w).outcome :=
      step.reaches_record w
    obtain ⟨more, hrest⟩ := ih (step.record out w).after
    rw [← Entry.state_outcome] at hrest
    rw [sessionEnd_cons, ← Entry.state_outcome]
    exact ⟨log ++ more, .cons hfirst hrest⟩

/-- The rules determine the log of a session, and they end it as the transcript does. -/
theorem exists_session_iff (out : Sink σ ε) (steps : List Step) (w : Writer σ) :
    ∃ log, ∀ l v, Session out steps w l v ↔ l = log ∧ v = sessionEnd out steps w := by
  obtain ⟨log, h⟩ := exists_session out steps w
  refine ⟨log, fun l v => ⟨fun h' => h'.deterministic h, ?_⟩⟩
  rintro ⟨rfl, rfl⟩
  exact h

end Sessions

end Stencil
