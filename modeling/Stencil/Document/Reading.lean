import Stencil.Document.Table
import Stencil.Document.Token

/-! Reading a TOML document: from its tokens to its statements, and from them to its
table. -/

namespace Stencil.Document

/-- Arrays and inline tables nest at most this deep. -/
def maxNesting : Nat :=
  80

def skipBlank : List Token → List Token
  | ⟨.blank _, _⟩ :: ts => ts
  | ts => ts

/-- Skips what may stand between the parts of an array or an inline table. -/
def skipLines : List Token → List Token
  | ⟨.blank _, _⟩ :: ts => skipLines ts
  | ⟨.newline, _⟩ :: ts => skipLines ts
  | ⟨.comment, _⟩ :: ts => skipLines ts
  | ts => ts

def isBareKeyChar (c : Char) : Bool :=
  c.isAlphanum || c = '_' || c = '-'

def simpleKey? : Token → Option Key
  | ⟨.bare text, span⟩ =>
    if text.all isBareKeyChar then some ⟨String.ofList text, span⟩ else none
  | ⟨.quoted false text, span⟩ => some ⟨text, span⟩
  | _ => none

/-- The parts of a dotted key: those before the last one, and the last one. -/
def readKey : List Token → Option (List Key × Key × List Token)
  | [] => none
  | t :: ts =>
    match simpleKey? t with
    | none => none
    | some key =>
      match ts with
      | ⟨.mark '.', _⟩ :: ⟨.blank _, _⟩ :: rest => more key (readKey rest)
      | ⟨.mark '.', _⟩ :: rest => more key (readKey rest)
      | ⟨.blank _, _⟩ :: ⟨.mark '.', _⟩ :: ⟨.blank _, _⟩ :: rest => more key (readKey rest)
      | ⟨.blank _, _⟩ :: ⟨.mark '.', _⟩ :: rest => more key (readKey rest)
      | ⟨.blank _, _⟩ :: rest => some ([], key, rest)
      | rest => some ([], key, rest)
where
  more (key : Key) : Option (List Key × Key × List Token) → Option (List Key × Key × List Token)
    | some (path, last, rest) => some (key :: path, last, rest)
    | none => none

/-- A run of words and dots: its text, its end, and what follows. -/
def joinBare (stop : Nat) : List Token → List Char × Nat × List Token
  | ⟨.bare text, span⟩ :: ts =>
    let (more, stop, rest) := joinBare span.stop ts
    (text ++ more, stop, rest)
  | ⟨.mark '.', span⟩ :: ts =>
    let (more, stop, rest) := joinBare span.stop ts
    ('.' :: more, stop, rest)
  | ts => ([], stop, ts)

/-- The text of an unquoted value. One space may stand between a date and a time. -/
def unquoted (start : Nat) (ts : List Token) : List Char × Nat × List Token :=
  let (text, stop, rest) := joinBare start ts
  match rest with
  | ⟨.blank [' '], _⟩ :: ⟨.bare (c :: cs), span⟩ :: more =>
    if afterDate? text == some [] && c.isDigit then
      let (time, stop, rest) := joinBare span.stop (⟨.bare (c :: cs), span⟩ :: more)
      (text ++ ' ' :: time, stop, rest)
    else (text, stop, rest)
  | _ => (text, stop, rest)

def readUnquoted (start : Nat) (ts : List Token) : Option (Value × List Token) :=
  let (text, stop, rest) := unquoted start ts
  (readScalar text).map fun s => (Value.ofScalar ⟨start, stop⟩ s, rest)

mutual

/-- A value; `nesting` is how many arrays and inline tables may still be opened around the
values inside it, and `fuel` bounds the steps. -/
def readValue : Nat → Nat → List Token → Option (Value × List Token)
  | 0, _, _ => none
  | _, _, [] => none
  | fuel + 1, nesting, t :: ts =>
    match t.lexeme with
    | .quoted _ text => some (.string t.span text, ts)
    | .bare _ => readUnquoted t.span.start (t :: ts)
    | .mark c =>
      if c = '[' && nesting != 0 then
        (readItems fuel (nesting - 1) (skipLines ts)).map fun (items, stop, rest) =>
          (.array ⟨t.span.start, stop⟩ false items, rest)
      else if c = '\x7b' && nesting != 0 then
        (readEntries fuel (nesting - 1) [] (skipLines ts)).map fun (entries, stop, rest) =>
          (.table ⟨t.span.start, stop⟩ .inline entries, rest)
      else none
    | _ => none

/-- The items of an array up to its closing bracket, and where that ends. -/
def readItems : Nat → Nat → List Token → Option (List Value × Nat × List Token)
  | 0, _, _ => none
  | _, _, ⟨.mark ']', span⟩ :: ts => some ([], span.stop, ts)
  | fuel + 1, nesting, ts =>
    match readValue fuel nesting ts with
    | none => none
    | some (item, rest) =>
      match skipLines rest with
      | ⟨.mark ']', span⟩ :: rest => some ([item], span.stop, rest)
      | ⟨.mark ',', _⟩ :: rest =>
        (readItems fuel nesting (skipLines rest)).map fun (items, stop, rest) =>
          (item :: items, stop, rest)
      | _ => none

/-- The entries of an inline table up to its closing brace, added to those read before. -/
def readEntries : Nat → Nat → Entries → List Token → Option (Entries × Nat × List Token)
  | 0, _, _, _ => none
  | _, _, entries, ⟨.mark '\x7d', span⟩ :: ts => some (entries, span.stop, ts)
  | fuel + 1, nesting, entries, ts =>
    match readAssign skipLines fuel nesting ts with
    | none => none
    | some (path, key, value, rest) =>
      match assign? path key value entries with
      | none => none
      | some entries =>
        match skipLines rest with
        | ⟨.mark '\x7d', span⟩ :: rest => some (entries, span.stop, rest)
        | ⟨.mark ',', _⟩ :: rest => readEntries fuel nesting entries (skipLines rest)
        | _ => none

/-- A key, an equals sign and a value. What may stand around the sign is what `skip`
skips: only blanks in a statement, also line ends and comments in an inline table. -/
def readAssign (skip : List Token → List Token) :
    Nat → Nat → List Token → Option (List Key × Key × Value × List Token)
  | 0, _, _ => none
  | fuel + 1, nesting, ts =>
    match readKey ts with
    | none => none
    | some (path, key, rest) =>
      match skip rest with
      | ⟨.mark '=', _⟩ :: rest =>
        (readValue fuel nesting (skip rest)).map fun (value, rest) => (path, key, value, rest)
      | _ => none

end

/-- The rest of a header after its key: as many closing brackets as it has opening ones. -/
def closeHeader (isArray : Bool) (start : Nat) (path : List Key) (key : Key) :
    List Token → Option (Statement × List Token)
  | ⟨.mark ']', inner⟩ :: ts =>
    if isArray then
      match ts with
      | ⟨.mark ']', outer⟩ :: rest => some (.header true path key ⟨start, outer.stop⟩, rest)
      | _ => none
    else some (.header false path key ⟨start, inner.stop⟩, ts)
  | _ => none

def readHeader (isArray : Bool) (start : Nat) (ts : List Token) : Option (Statement × List Token) :=
  match readKey (skipBlank ts) with
  | some (path, key, rest) => closeHeader isArray start path key rest
  | none => none

def readStatement (fuel : Nat) (ts : List Token) : Option (Statement × List Token) :=
  match ts with
  | ⟨.mark '[', span⟩ :: ⟨.mark '[', _⟩ :: rest => readHeader true span.start rest
  | ⟨.mark '[', span⟩ :: rest => readHeader false span.start rest
  | _ =>
    (readAssign skipBlank fuel maxNesting ts).map fun (path, key, value, rest) =>
      (.assign path key value, rest)

/-- What follows the rest of a line, on which only a comment may stand. -/
def endLine? (ts : List Token) : Option (List Token) :=
  match skipBlank ts with
  | [] => some []
  | ⟨.newline, _⟩ :: rest => some rest
  | [⟨.comment, _⟩] => some []
  | ⟨.comment, _⟩ :: ⟨.newline, _⟩ :: rest => some rest
  | _ => none

def readStatements : Nat → List Token → Option (List Statement)
  | 0, _ => none
  | fuel + 1, ts =>
    match skipLines ts with
    | [] => some []
    | t :: ts =>
      match readStatement fuel (t :: ts) with
      | none => none
      | some (statement, rest) =>
        match endLine? rest with
        | none => none
        | some rest => (readStatements fuel rest).map (statement :: ·)

/-- The table of a document, unless it is malformed. -/
def parse? (s : String) : Option Entries :=
  match tokens? s with
  | none => none
  | some ts =>
    match readStatements (ts.length + 2) ts with
    | none => none
    | some statements => document? statements

end Stencil.Document
