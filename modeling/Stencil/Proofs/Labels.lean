import Stencil.Manifest.Diagnostic
import Stencil.Proofs.Acceptance

/-! Where faults point to. Every label is found by a search for the name that is at fault, first in
quotes and then without, so it covers that name and nothing else, whichever check has failed. -/

namespace Stencil

theorem byteSize_eq (cs : List Char) : byteSize cs = (String.ofList cs).utf8ByteSize := by
  induction cs with
  | nil => rfl
  | cons c cs ih =>
    rw [byteSize, ih, ← List.singleton_append, String.ofList_append, String.utf8ByteSize_append]
    simp

theorem byteSize_append (cs ds : List Char) : byteSize (cs ++ ds) = byteSize cs + byteSize ds := by
  simp only [byteSize_eq, String.ofList_append, String.utf8ByteSize_append]

section Search

variable {needle cs : List Char}

theorem find?_eq_some {start : Nat} (h : find? needle cs = some start) :
    ∃ before after, cs = before ++ needle ++ after ∧ start = byteSize before := by
  induction cs generalizing start with
  | nil =>
    simp only [find?] at h
    split at h
    · next hempty =>
      cases h
      exact ⟨[], [], by simp [List.isEmpty_iff.mp hempty], rfl⟩
    · cases h
  | cons c cs ih =>
    by_cases hp : needle.isPrefixOf (c :: cs) = true
    · obtain ⟨after, ha⟩ := List.isPrefixOf_iff_prefix.mp hp
      simp only [find?, hp, if_true, Option.some.injEq] at h
      exact ⟨[], after, by simp [ha], h.symm⟩
    · simp only [find?, hp, Bool.false_eq_true, if_false, Option.map_eq_some_iff] at h
      obtain ⟨n, hn, rfl⟩ := h
      obtain ⟨before, after, rfl, rfl⟩ := ih hn
      exact ⟨c :: before, after, by simp, Nat.add_comm _ _⟩

theorem find?_eq_none_iff : find? needle cs = none ↔ ¬ needle <:+: cs := by
  induction cs with
  | nil =>
    by_cases hn : needle = []
    · simp [find?, hn]
    · simp [find?, hn]
  | cons c cs ih =>
    by_cases hp : needle.isPrefixOf (c :: cs) = true
    · have hprefix := List.isPrefixOf_iff_prefix.mp hp
      simp [find?, hp, List.infix_cons_iff, hprefix]
    · have hprefix := mt List.isPrefixOf_iff_prefix.mpr hp
      simp [find?, hp, List.infix_cons_iff, hprefix, ih]

theorem afterFirst?_eq_some {stop : Nat} {rest : List Char}
    (h : afterFirst? needle cs = some (stop, rest)) :
    ∃ before, cs = before ++ needle ++ rest ∧ find? needle cs = some (byteSize before) ∧
      stop = byteSize before + byteSize needle := by
  induction cs generalizing stop with
  | nil =>
    simp only [afterFirst?] at h
    split at h
    · next hempty =>
      cases h
      have hnil := List.isEmpty_iff.mp hempty
      exact ⟨[], by simp [hnil], by simp [find?, hnil, byteSize], by simp [hnil, byteSize]⟩
    · cases h
  | cons c cs ih =>
    by_cases hp : needle.isPrefixOf (c :: cs) = true
    · obtain ⟨after, ha⟩ := List.isPrefixOf_iff_prefix.mp hp
      have hdrop : (c :: cs).drop needle.length = after := by rw [← ha, List.drop_left]
      simp only [afterFirst?, hp, if_true, hdrop, Option.some.injEq, Prod.mk.injEq] at h
      obtain ⟨rfl, rfl⟩ := h
      exact ⟨[], by simp [ha], by simp [find?, hp, byteSize], by simp [byteSize]⟩
    · simp only [afterFirst?, hp, Bool.false_eq_true, if_false, Option.map_eq_some_iff] at h
      obtain ⟨⟨n, after⟩, hn, he⟩ := h
      cases he
      obtain ⟨before, rfl, hfind, rfl⟩ := ih hn
      refine ⟨c :: before, by simp, ?_, by simp only [byteSize]; omega⟩
      simp only [find?, hp, Bool.false_eq_true, if_false, hfind, Option.map_some, byteSize,
        Nat.add_comm]

end Search

def Occurs (document s : String) : Prop :=
  ∃ before after, document = before ++ s ++ after

namespace Span

/-- Begins and ends between characters, and holds this text. -/
def Covers (span : Span) (document s : String) : Prop :=
  ∃ before after, document = before ++ s ++ after ∧
    span.start = before.utf8ByteSize ∧ span.stop = before.utf8ByteSize + s.utf8ByteSize

/-- Holds this text, and there is a quote right before it and one right behind it. -/
def CoversQuoted (span : Span) (document s : String) : Prop :=
  ∃ before after, document = before ++ ("\"" ++ s ++ "\"") ++ after ∧
    span.start = before.utf8ByteSize + 1 ∧ span.stop = before.utf8ByteSize + 1 + s.utf8ByteSize

theorem CoversQuoted.covers {span : Span} {document s : String}
    (h : span.CoversQuoted document s) : span.Covers document s := by
  obtain ⟨before, after, hdocument, hstart, hstop⟩ := h
  have hquote : "\"".utf8ByteSize = 1 := by decide
  refine ⟨before ++ "\"", "\"" ++ after, ?_, ?_, ?_⟩
  · rw [hdocument]
    simp only [String.append_assoc]
  · rw [String.utf8ByteSize_append, hquote, hstart]
  · rw [String.utf8ByteSize_append, hquote, hstop]

end Span

theorem occurs_iff (document s : String) : Occurs document s ↔ s.toList <:+: document.toList := by
  constructor
  · rintro ⟨before, after, rfl⟩
    exact ⟨before.toList, after.toList, by simp⟩
  · rintro ⟨before, after, h⟩
    refine ⟨String.ofList before, String.ofList after, String.toList_inj.mp ?_⟩
    simp [← h]

theorem inQuotes_eq (name : String) : inQuotes name = ("\"" ++ name ++ "\"").toList := by
  simp [inQuotes]

theorem covers_spanAt {document name : String} {start : Nat}
    (h : find? name.toList document.toList = some start) :
    (spanAt name start).Covers document name := by
  obtain ⟨before, after, hdocument, rfl⟩ := find?_eq_some h
  refine ⟨String.ofList before, String.ofList after, String.toList_inj.mp ?_,
    byteSize_eq before, ?_⟩
  · simp [hdocument]
  · simp [spanAt, byteSize_eq]

theorem coversQuoted_spanAt {document name : String} {before after : List Char}
    (h : document.toList = before ++ inQuotes name ++ after) :
    (spanAt name (byteSize before + 1)).CoversQuoted document name := by
  refine ⟨String.ofList before, String.ofList after, String.toList_inj.mp ?_, ?_, ?_⟩
  · simp [h, inQuotes_eq]
  · simp [spanAt, byteSize_eq]
  · simp [spanAt, byteSize_eq]

/-- The place of a text, if it has one. -/
structure Located (document s : String) (place : Option Span) : Prop where
  covers : ∀ span ∈ place, span.Covers document s
  absent : place = none ↔ s = "" ∨ ¬ Occurs document s
  quoted : Occurs document ("\"" ++ s ++ "\"") → ∀ span ∈ place, span.CoversQuoted document s

/-- Two places at which a text stands in quotes, as far as there are two. -/
structure LocatedTwice (document s : String) (first second : Option Span) : Prop where
  covers : ∀ span ∈ first, span.CoversQuoted document s
  coversAgain : ∀ span ∈ second, span.CoversQuoted document s
  absent : first = none ↔ ¬ Occurs document ("\"" ++ s ++ "\"")
  ordered : ∀ span ∈ second, ∃ earlier ∈ first, earlier.stop < span.start

theorem located_placeOf? (document name : String) :
    Located document name (placeOf? document name) := by
  by_cases hempty : name = ""
  · have hnone : placeOf? document name = none := by simp [placeOf?, hempty]
    rw [hnone]
    exact ⟨by simp, by simp [hempty], by simp⟩
  · have hname : name.isEmpty = false := by simpa using hempty
    cases hq : find? (inQuotes name) document.toList with
    | some start =>
      obtain ⟨before, after, hdocument, rfl⟩ := find?_eq_some hq
      have hcovers := coversQuoted_spanAt hdocument
      obtain ⟨front, back, hoccurs, -, -⟩ := hcovers.covers
      simp only [placeOf?, hname, Bool.false_eq_true, if_false, hq]
      refine ⟨?_, ?_, ?_⟩
      · rintro span ⟨⟩
        exact hcovers.covers
      · simpa [hempty] using ⟨front, back, hoccurs⟩
      · rintro - span ⟨⟩
        exact hcovers
    | none =>
      have hquoted : ¬ Occurs document ("\"" ++ name ++ "\"") := by
        rw [occurs_iff, ← inQuotes_eq]
        exact find?_eq_none_iff.mp hq
      simp only [placeOf?, hname, Bool.false_eq_true, if_false, hq]
      refine ⟨?_, ?_, fun h => absurd h hquoted⟩
      · intro span hspan
        obtain ⟨start, hstart, rfl⟩ := Option.map_eq_some_iff.mp hspan
        exact covers_spanAt hstart
      · rw [Option.map_eq_none_iff, find?_eq_none_iff, ← occurs_iff]
        simp [hempty]

/-- The second of two quoted occurrences begins behind the first. -/
theorem findSecond?_eq_some {needle cs : List Char} {start : Nat}
    (h : findSecond? needle cs = some start) :
    ∃ before middle after, cs = before ++ needle ++ middle ++ needle ++ after ∧
      find? needle cs = some (byteSize before) ∧
      start = byteSize (before ++ needle ++ middle) := by
  unfold findSecond? at h
  cases hf : afterFirst? needle cs with
  | none => simp [hf] at h
  | some found =>
    obtain ⟨stop, rest⟩ := found
    simp only [hf, Option.map_eq_some_iff] at h
    obtain ⟨n, hn, rfl⟩ := h
    obtain ⟨before, rfl, hfirst, rfl⟩ := afterFirst?_eq_some hf
    obtain ⟨middle, after, rfl, rfl⟩ := find?_eq_some hn
    refine ⟨before, middle, after, by simp, hfirst, ?_⟩
    simp only [byteSize_append]
    omega

theorem locatedTwice_placesOf (document name : String) :
    LocatedTwice document name (placesOf document name).1 (placesOf document name).2 := by
  refine ⟨?_, ?_, ?_, ?_⟩
  · intro span hspan
    obtain ⟨start, hstart, rfl⟩ := Option.map_eq_some_iff.mp hspan
    obtain ⟨before, after, hdocument, rfl⟩ := find?_eq_some hstart
    exact coversQuoted_spanAt hdocument
  · intro span hspan
    obtain ⟨start, hstart, rfl⟩ := Option.map_eq_some_iff.mp hspan
    obtain ⟨before, middle, after, hdocument, -, rfl⟩ := findSecond?_eq_some hstart
    exact coversQuoted_spanAt hdocument
  · rw [occurs_iff, ← inQuotes_eq, ← find?_eq_none_iff]
    exact Option.map_eq_none_iff
  · intro span hspan
    obtain ⟨start, hstart, rfl⟩ := Option.map_eq_some_iff.mp hspan
    obtain ⟨before, middle, after, -, hfirst, rfl⟩ := findSecond?_eq_some hstart
    have hquotes : byteSize (inQuotes name) = name.utf8ByteSize + 2 := by
      rw [byteSize_eq, inQuotes_eq, String.ofList_toList]
      simp only [String.utf8ByteSize_append, show "\"".utf8ByteSize = 1 from rfl]
      omega
    refine ⟨spanAt name (byteSize before + 1), by simp [placesOf, hfirst], ?_⟩
    simp only [spanAt, byteSize_append, hquotes]
    omega

section Faults

instance decidableEqError {α ε : Type} [DecidableEq ε] (x : Except ε α) (e : ε) :
    Decidable (x = .error e) :=
  match x with
  | .ok _ => isFalse nofun
  | .error d => decidable_of_iff (d = e) (by simp)

/-- Every failure of the check has this property. -/
def FailsOnly {ε : Type} (P : ε → Prop) (x : Except ε Unit) : Prop :=
  ∀ e, x = .error e → P e

variable {α ε : Type} {P : ε → Prop}

theorem failsOnly_ok : FailsOnly P (.ok ()) := by
  rintro e ⟨⟩

theorem FailsOnly.bind {x y : Except ε Unit} (hx : FailsOnly P x) (hy : FailsOnly P y) :
    FailsOnly P (x >>= fun _ => y) := by
  cases x with
  | ok _ => exact hy
  | error e => exact hx

theorem FailsOnly.mono {Q : ε → Prop} {x : Except ε Unit} (hx : FailsOnly P x)
    (h : ∀ e, P e → Q e) : FailsOnly Q x :=
  fun e he => h e (hx e he)

theorem checkAll_eq_error {check : α → Except ε Unit} {as : List α} {e : ε}
    (h : checkAll check as = .error e) :
    ∃ before a after, as = before ++ a :: after ∧ (∀ b ∈ before, check b = .ok ()) ∧
      check a = .error e := by
  induction as with
  | nil => cases h
  | cons a as ih =>
    cases ha : check a with
    | error e' =>
      simp only [checkAll, ha, Except.error.injEq] at h
      exact ⟨[], a, as, rfl, by simp, by rw [ha, h]⟩
    | ok _ =>
      simp only [checkAll, ha] at h
      obtain ⟨before, b, after, rfl, hbefore, hb⟩ := ih h
      exact ⟨a :: before, b, after, rfl, by simpa [ha] using hbefore, hb⟩

theorem FailsOnly.checkAll {check : α → Except ε Unit} (h : ∀ a, FailsOnly P (check a))
    (as : List α) : FailsOnly P (checkAll check as) := by
  intro e he
  obtain ⟨-, a, -, -, -, ha⟩ := checkAll_eq_error he
  exact h a e ha

/-- The fault is that of a name, and its places are those of the name. -/
def Fault.OfName (document : String) : Fault → Prop
  | .badName name _ _ place => Located document name place
  | .duplicate name _ first second => LocatedTwice document name first second
  | .other _ _ => False

namespace Scope

variable (s : Scope)

theorem failsOnly_checkName (kind name : String) :
    FailsOnly (Fault.OfName s.document) (s.checkName kind name) := by
  unfold checkName
  split
  · rintro e ⟨⟩
    exact located_placeOf? s.document name
  · exact failsOnly_ok

theorem failsOnly_checkDotted (kind name : String) :
    FailsOnly (Fault.OfName s.document) (s.checkDotted kind name) := by
  unfold checkDotted
  split
  · next part flaw _ =>
    rintro e ⟨⟩
    exact located_placeOf? s.document part
  · exact failsOnly_ok

theorem failsOnly_checkDistinct (kind : String) (names : List String) :
    FailsOnly (Fault.OfName s.document) (s.checkDistinct kind names) := by
  unfold checkDistinct
  split
  · next name _ =>
    rintro e ⟨⟩
    exact locatedTwice_placesOf s.document name
  · exact failsOnly_ok

theorem failsOnly_checkParameter (arg : String) :
    FailsOnly (Fault.OfName s.document) (s.checkParameter arg) := by
  unfold checkParameter
  dsimp only
  split
  · exact failsOnly_ok
  · exact s.failsOnly_checkName "parameter" _

theorem failsOnly_checkSymbol (symbol : String) :
    FailsOnly (Fault.OfName s.document) (s.checkSymbol symbol) := by
  unfold checkSymbol
  split
  · exact failsOnly_ok
  · exact s.failsOnly_checkName "imported symbol" symbol

theorem failsOnly_checkDecoration (d : Decoration) :
    FailsOnly (Fault.OfName s.document) (s.checkDecoration d) := by
  refine (s.failsOnly_checkDotted "decorator" d.target).bind ?_
  cases d with
  | named name => exact failsOnly_ok
  | call name args kwargs =>
    exact .checkAll (fun b => s.failsOnly_checkName "decorator argument" b.name) kwargs

theorem failsOnly_checkFunction (f : FunctionDecl) :
    FailsOnly (Fault.OfName s.document) (s.checkFunction f) := by
  -- going into a definition changes the path and not the document
  let inner := s.inside f.name
  have hname := s.failsOnly_checkName "function" f.name
  have hdecorators := FailsOnly.checkAll inner.failsOnly_checkDecoration f.decorators
  have hargs := FailsOnly.checkAll inner.failsOnly_checkParameter f.args
  have hkwargs := FailsOnly.checkAll
    (fun b : Binding => inner.failsOnly_checkName "parameter" b.name) f.kwargs
  have hdistinct := inner.failsOnly_checkDistinct "parameter" f.parameterNames
  exact hname.bind (hdecorators.bind (hargs.bind (hkwargs.bind hdistinct)))

theorem failsOnly_checkClass (c : ClassDecl) :
    FailsOnly (Fault.OfName s.document) (s.checkClass c) := by
  let inner := s.inside c.name
  have hname := s.failsOnly_checkName "class" c.name
  have hparents := FailsOnly.checkAll (inner.failsOnly_checkDotted "parent class") c.parents
  have hdecorators := FailsOnly.checkAll inner.failsOnly_checkDecoration c.decorators
  have hattributes := FailsOnly.checkAll
    (fun b : Binding => inner.failsOnly_checkName "attribute" b.name) c.attributes
  have hdistinct := inner.failsOnly_checkDistinct "method" (c.methods.map FunctionDecl.name)
  have hmethods := FailsOnly.checkAll inner.failsOnly_checkFunction c.methods
  exact hname.bind (hparents.bind (hdecorators.bind (hattributes.bind (hdistinct.bind hmethods))))

/-- The one fault that is not about a name of its own: an alias beside symbols. -/
def IsAliasFault (i : ImportDecl) (fault : Fault) : Prop :=
  ∃ localName, i.localName = some localName ∧ i.symbols ≠ [] ∧ fault = s.otherFault
    ("import of '" ++ i.source ++ "' cannot have both an alias and symbols") localName

theorem failsOnly_checkImport (i : ImportDecl) :
    FailsOnly (fun fault => fault.OfName s.document ∨ s.IsAliasFault i fault)
      (s.checkImport i) := by
  have hsource := s.failsOnly_checkDotted "import" i.source
  have hsymbols := FailsOnly.checkAll s.failsOnly_checkSymbol i.symbols
  refine (hsource.mono fun _ => .inl).bind (FailsOnly.bind ?_ (hsymbols.mono fun _ => .inl))
  intro fault h
  obtain ⟨before, localName, after, hmem, -, hfails⟩ := checkAll_eq_error h
  have hlocal : i.localName = some localName := by
    have hin : localName ∈ i.localName.toList := by simp [hmem]
    simpa using hin
  unfold checkAlias at hfails
  by_cases hempty : i.symbols = []
  · simp only [hempty, List.isEmpty_nil, if_true] at hfails
    exact .inl (s.failsOnly_checkName "import alias" localName fault hfails)
  · have hsome : i.symbols.isEmpty = false := by simpa using hempty
    simp only [hsome, Bool.false_eq_true, if_false, Except.error.injEq] at hfails
    exact .inr ⟨localName, hlocal, hempty, hfails.symm⟩

end Scope

end Faults

namespace Fault

/-- The name that a fault of the manifest is about. For the fault without a name it is the alias
that stands beside symbols, in the first import that is not valid. -/
def About (m : Manifest) (name : String) : Fault → Prop
  | .badName given _ _ _ | .duplicate given _ _ _ => given = name
  | .other message _ => ∃ before i after, m.imports = before ++ i :: after ∧
      (∀ j ∈ before, j.Valid) ∧ i.localName = some name ∧ i.symbols ≠ [] ∧
      message = "import of '" ++ i.source ++ "' cannot have both an alias and symbols"

/-- The labels are the places that the name has in the document. -/
def PointsAt (document name : String) (fault : Fault) : Prop :=
  match fault with
  | .badName _ _ _ place | .other _ place =>
    fault.labels.map Label.span = place.toList ∧ Located document name place
  | .duplicate _ _ first second =>
    fault.labels.map Label.span = first.toList ++ second.toList ∧
      LocatedTwice document name first second

theorem PointsAt.covers {document name : String} {fault : Fault} (h : fault.PointsAt document name)
    {label : Label} (hl : label ∈ fault.labels) : label.span.Covers document name := by
  have hspan : label.span ∈ fault.labels.map Label.span := List.mem_map_of_mem hl
  cases fault with
  | badName given kind flaw place =>
    obtain ⟨hlabels, hlocated⟩ := h
    rw [hlabels, Option.mem_toList] at hspan
    exact hlocated.covers _ hspan
  | other message place =>
    obtain ⟨hlabels, hlocated⟩ := h
    rw [hlabels, Option.mem_toList] at hspan
    exact hlocated.covers _ hspan
  | duplicate given kind first second =>
    obtain ⟨hlabels, hlocated⟩ := h
    rw [hlabels, List.mem_append, Option.mem_toList, Option.mem_toList] at hspan
    rcases hspan with hfirst | hsecond
    · exact (hlocated.covers _ hfirst).covers
    · exact (hlocated.coversAgain _ hsecond).covers

theorem map_span_labels_badName (name kind : String) (flaw : NameFlaw) (place : Option Span) :
    (badName name kind flaw place).labels.map Label.span = place.toList := by
  cases flaw <;> cases place <;> rfl

theorem OfName.pointsAt {m : Manifest} {document : String} {fault : Fault}
    (h : fault.OfName document) : ∃ name, fault.About m name ∧ fault.PointsAt document name := by
  cases fault with
  | badName name kind flaw place =>
    exact ⟨name, rfl, map_span_labels_badName name kind flaw place, h⟩
  | duplicate name kind first second =>
    have hlabels : (duplicate name kind first second).labels.map Label.span =
        first.toList ++ second.toList := by
      cases first <;> cases second <;> rfl
    exact ⟨name, rfl, hlabels, h⟩
  | other message place => exact h.elim

end Fault

theorem failsOnly_checkImports (m : Manifest) (document : String) :
    FailsOnly (fun fault => ∃ name, fault.About m name ∧ fault.PointsAt document name)
      (checkAll (Scope.mk document []).checkImport m.imports) := by
  intro fault h
  obtain ⟨before, i, after, himports, hbefore, hi⟩ := checkAll_eq_error h
  have hvalid : ∀ j ∈ before, j.Valid :=
    fun j hj => (Scope.checkImport_eq_ok_iff _ j).mp (hbefore j hj)
  rcases Scope.failsOnly_checkImport _ i fault hi with hname | ⟨localName, hlocal, hsymbols, rfl⟩
  · exact hname.pointsAt
  · have hlabels : ∀ (message : String) (place : Option Span),
        (Fault.other message place).labels.map Label.span = place.toList := by
      intro message place
      cases place <;> rfl
    exact ⟨localName, ⟨before, i, after, himports, hvalid, hlocal, hsymbols, rfl⟩,
      hlabels _ _, located_placeOf? document localName⟩

/-- Whatever is wrong with a manifest, the labels lie at the name that is at fault: each of them
covers just this name in the document. -/
theorem Manifest.labels_cover_name (m : Manifest) (document : String) {fault : Fault}
    (h : m.check document = .error fault) :
    ∃ name, fault.About m name ∧ fault.PointsAt document name ∧
      ∀ label ∈ fault.labels, label.span.Covers document name := by
  let s : Scope := { document := document }
  have hname := s.failsOnly_checkDotted "module" m.info.name
  have hdistinct := s.failsOnly_checkDistinct "top-level definition" m.definedNames
  have hclasses := FailsOnly.checkAll s.failsOnly_checkClass m.classes
  have hfunctions := FailsOnly.checkAll s.failsOnly_checkFunction m.functions
  have hrest := hdistinct.bind (hclasses.bind hfunctions)
  have hcheck := (hname.mono fun _ => Fault.OfName.pointsAt).bind
    ((failsOnly_checkImports m document).bind (hrest.mono fun _ => Fault.OfName.pointsAt))
  obtain ⟨name, habout, hpoints⟩ := hcheck fault h
  exact ⟨name, habout, hpoints, fun label hl => hpoints.covers hl⟩

/-- A name of two bytes that is declared twice, and stands in the document without quotes before it
stands there in quotes. -/
theorem labels_cover_name_twice :
    let m : Manifest := { info := { name := "m" }, functions := [{ name := "é" }, { name := "é" }] }
    let document := "# é\nname = \"é\"\nname = \"é\"\n"
    let fault : Fault := .duplicate "é" "top-level definition" (some ⟨13, 15⟩) (some ⟨25, 27⟩)
    m.check document = .error fault ∧ ∃ name, fault.About m name ∧ fault.PointsAt document name ∧
      ∀ label ∈ fault.labels, label.span.Covers document name := by
  intro m document fault
  have h : m.check document = .error fault := by decide +kernel
  exact ⟨h, m.labels_cover_name document h⟩

end Stencil
