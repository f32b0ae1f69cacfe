import Stencil.Document.Reading
import Stencil.Manifest.Basic
import Stencil.Text.Quoted

/-! Reading a manifest from the data of a TOML document. A record is a table with known
keys, or an array of its fields in order. The keys of a table are taken in the order of
their names, and the first value that does not fit decides the error. -/

namespace Stencil

open Document (Value Key Entries)

/-- Why a value does not fit. -/
inductive Misfit where
  | unknownField (name : String) (known : List String)
  | missingField (name : String)
  | invalidType (found expected : String)
  | tooShort (length : Nat) (record : String) (fields : Nat)
  | unknownEnding (name : String)
  | notAName
  | noSingleName (isEmpty : Bool)
  | notEmpty (found : String)
  | notATable (found : String)
  | style (error : StyleError)
  | noDecoration
deriving DecidableEq, Repr

/-- The alternatives, as a message lists them. -/
def alternatives (names : List String) : String :=
  match names.map fun n => "`" ++ n ++ "`" with
  | [a, b] => a ++ " or " ++ b
  | quotedNames => "one of " ++ ", ".intercalate quotedNames

def Misfit.message : Misfit → String
  | .unknownField name known =>
    "unknown field `" ++ name ++ "`, expected " ++ alternatives known
  | .missingField name => "missing field `" ++ name ++ "`"
  | .invalidType found expected => "invalid type: " ++ found ++ ", expected " ++ expected
  | .tooShort length record fields =>
    "invalid length " ++ length.repr ++ ", expected struct " ++ record
      ++ " with " ++ fields.repr ++ " elements"
  | .unknownEnding name =>
    "unknown variant `" ++ name ++ "`, expected " ++ alternatives ["lf", "crlf", "native"]
  | .notAName => "wanted string or table"
  | .noSingleName isEmpty =>
    "wanted exactly 1 element, " ++ if isEmpty then "found 0 elements" else "more than 1 element"
  | .notEmpty found => "expected empty " ++ found
  | .notATable found => "expected table, found " ++ found
  | .style error => error.message
  | .noDecoration => "data did not match any variant of untagged enum DecoratorSpec"

structure DecodeError where
  misfit : Misfit
  span : Span
deriving DecidableEq, Repr

abbrev Decoded := Except DecodeError

def misfit {α : Type} (span : Span) (m : Misfit) : Decoded α :=
  .error ⟨m, span⟩

/-- A value as a message shows it. -/
def shownValue : Value → String
  | .string _ s => "string " ++ quoted s
  | .integer _ n => "integer `" ++ toString n ++ "`"
  | .float _ x => "floating point `" ++ x.text ++ "`"
  | .boolean _ b => "boolean `" ++ (if b then "true" else "false") ++ "`"
  | .datetime _ => "map"
  | .array _ _ _ => "sequence"
  | .table _ _ _ => "map"

/-- The kind of a value as a message names it. -/
def kindName : Value → String
  | .string _ _ => "string"
  | .integer _ _ => "integer"
  | .float _ _ => "float"
  | .boolean _ _ => "boolean"
  | .datetime _ => "datetime"
  | .array _ _ _ => "array"
  | .table _ _ _ => "table"

def wrongType {α : Type} (v : Value) (expected : String) : Decoded α :=
  misfit v.span (.invalidType (shownValue v) expected)

def decodeString : Value → Decoded String
  | .string _ s => .ok s
  | v => wrongType v "a string"

def decodeBool : Value → Decoded Bool
  | .boolean _ b => .ok b
  | v => wrongType v "a boolean"

def decodeItems {α : Type} (item : Value → Decoded α) : List Value → Decoded (List α)
  | [] => .ok []
  | v :: vs =>
    match item v with
    | .error e => .error e
    | .ok a => match decodeItems item vs with
      | .error e => .error e
      | .ok as => .ok (a :: as)

def decodeList {α : Type} (item : Value → Decoded α) : Value → Decoded (List α)
  | .array _ _ items => decodeItems item items
  | v => wrongType v "a sequence"

/-- A field of a record. `set` reads its value; `place` is where an error lies that is not
about the form of the value. -/
structure Field (ρ : Type) where
  name : String
  set : (place : Span) → Value → ρ → Decoded ρ
  /-- Whether a table must have the field. -/
  required : Bool := false
  /-- Whether an array may end before the field. -/
  omissible : Bool := false

structure Record (ρ : Type) where
  name : String
  fields : List (Field ρ)

namespace Field

variable {ρ α : Type}

/-- A field whose value is read by `read` and stored by `store`. -/
def of (name : String) (read : Value → Decoded α) (store : α → ρ → ρ) : Field ρ where
  name := name
  set _ v r := (read v).map (store · r)

def must (f : Field ρ) : Field ρ :=
  { f with required := true }

def may (f : Field ρ) : Field ρ :=
  { f with omissible := true }

end Field

namespace Record

variable {ρ : Type}

def fieldNames (record : Record ρ) : List String :=
  record.fields.map Field.name

def field? (record : Record ρ) (name : String) : Option (Field ρ) :=
  record.fields.find? fun f => f.name = name

/-- Takes the entries of a table one by one. -/
def readEntries (record : Record ρ) : Entries → ρ → Decoded ρ
  | [], r => .ok r
  | (key, v) :: rest, r =>
    match record.field? key.name with
    | none => misfit key.span (.unknownField key.name record.fieldNames)
    | some f => match f.set v.span v r with
      | .error e => .error e
      | .ok r => record.readEntries rest r

def readTable (record : Record ρ) (span : Span) (entries : Entries) (start : ρ) : Decoded ρ :=
  match record.readEntries entries start with
  | .error e => .error e
  | .ok r =>
    match record.fields.find? fun f => f.required && (entries.get? f.name).isNone with
    | some f => misfit span (.missingField f.name)
    | none => .ok r

/-- Takes the items of an array for the fields in order, from the field `index` on. Items
beyond the last field are ignored. -/
def readItems (record : Record ρ) (span : Span) (index : Nat) :
    List (Field ρ) → List Value → ρ → Decoded ρ
  | [], _, r => .ok r
  | f :: fs, [], r =>
    if f.omissible then record.readItems span (index + 1) fs [] r
    else misfit span (.tooShort index record.name record.fields.length)
  | f :: fs, v :: vs, r =>
    match f.set span v r with
    | .error e => .error e
    | .ok r => record.readItems span (index + 1) fs vs r

/-- The key under which the parts of a date are found. -/
def datetimeKey : String :=
  "$__toml_private_datetime"

def read (record : Record ρ) (start : ρ) : Value → Decoded ρ
  | .table span _ entries => record.readTable span entries start
  | .array span _ items => record.readItems span 0 record.fields items start
  | .datetime span => misfit span (.unknownField datetimeKey record.fieldNames)
  | v => wrongType v ("struct " ++ record.name)

end Record

/-- The name of a line ending, or a table with that name as its one key and nothing under
it. -/
def decodeEnding : Value → Decoded LineEnding
  | .string span s =>
    match LineEnding.ofName? s with
    | some ending => .ok ending
    | none => misfit span (.unknownEnding s)
  | .table span _ [] => misfit span (.noSingleName true)
  | .table _ _ [(key, v)] =>
    match LineEnding.ofName? key.name with
    | none => misfit key.span (.unknownEnding key.name)
    | some ending => match v with
      | .table _ _ [] => .ok ending
      | .table span _ _ => misfit span (.notEmpty "table")
      | .array _ _ [] => .ok ending
      | .array span _ _ => misfit span (.notEmpty "array")
      | v => misfit v.span (.notATable (kindName v))
  | .table span _ _ => misfit span (.noSingleName false)
  | v => misfit v.span .notAName

def setIndent (place : Span) (v : Value) (style : Style) : Decoded Style :=
  match decodeString v with
  | .error e => .error e
  | .ok s => match Indent.parse s with
    | .error e => misfit place (.style e)
    | .ok indent => .ok { style with indent := indent }

def styleRecord : Record Style where
  name := "WriterConfig"
  fields :=
    [{ name := "indent", set := setIndent, omissible := true },
     (Field.of "line_ending" decodeEnding fun e s => { s with lineEnding := e }).may]

def decodeOptional (v : Value) : Decoded (Option String) :=
  (decodeString v).map some

def infoRecord : Record ModuleInfo where
  name := "ModuleConfig"
  fields :=
    [(Field.of "name" decodeString fun s r => { r with name := s }).must,
     Field.of "header" decodeOptional fun s r => { r with header := s },
     Field.of "doc" decodeOptional fun s r => { r with doc := s }]

def importRecord : Record ImportDecl where
  name := "ImportSpec"
  fields :=
    [(Field.of "module" decodeString fun s r => { r with source := s }).must,
     Field.of "alias" decodeOptional fun s r => { r with localName := s },
     (Field.of "symbols" (decodeList decodeString) fun s r => { r with symbols := s }).may]

def bindingRecord : Record Binding where
  name := "KeywordSpec"
  fields :=
    [(Field.of "name" decodeString fun s r => { r with name := s }).must,
     (Field.of "value" decodeString fun s r => { r with value := s }).must]

def decodeBinding : Value → Decoded Binding :=
  bindingRecord.read {}

/-- A binding that is no longer than it must be. -/
def exactBinding : Value → Decoded Binding
  | .array span fromHeaders items =>
    if items.length ≤ bindingRecord.fields.length then
      decodeBinding (.array span fromHeaders items)
    else misfit span .noDecoration
  | v => decodeBinding v

/-- The value of one key, or a default where the key is missing. -/
def entryOr {α : Type} (entries : Entries) (name : String) (read : Value → Decoded α)
    (default : Option α) : Option α :=
  match entries.get? name with
  | none => default
  | some v => (read v).toOption

/-- A name, or a table with a name and arguments, in which other keys do not matter. -/
def decoration? : Value → Option Decoration
  | .string _ s => some (.named s)
  | .table _ _ entries =>
    match entryOr entries "name" decodeString none,
      entryOr entries "args" (decodeList decodeString) (some []),
      entryOr entries "kwargs" (decodeList exactBinding) (some []) with
    | some name, some args, some kwargs => some (.call name args kwargs)
    | _, _, _ => none
  | _ => none

/-- Decorators; one that does not fit is an error of the whole array. -/
def decodeDecorations : Value → Decoded (List Decoration)
  | .array span _ items =>
    decodeItems (fun v => match decoration? v with
      | some d => .ok d
      | none => misfit span .noDecoration) items
  | v => wrongType v "a sequence"

def functionRecord : Record FunctionDecl where
  name := "FunctionSpec"
  fields :=
    [(Field.of "name" decodeString fun s r => { r with name := s }).must,
     (Field.of "args" (decodeList decodeString) fun s r => { r with args := s }).may,
     (Field.of "kwargs" (decodeList decodeBinding) fun s r => { r with kwargs := s }).may,
     Field.of "returns" decodeOptional fun s r => { r with returns := s },
     (Field.of "async" decodeBool fun s r => { r with isAsync := s }).may,
     (Field.of "decorators" decodeDecorations fun s r => { r with decorators := s }).may,
     Field.of "doc" decodeOptional fun s r => { r with doc := s },
     Field.of "body" decodeOptional fun s r => { r with body := s }]

def classRecord : Record ClassDecl where
  name := "ClassSpec"
  fields :=
    [(Field.of "name" decodeString fun s r => { r with name := s }).must,
     (Field.of "parents" (decodeList decodeString) fun s r => { r with parents := s }).may,
     (Field.of "decorators" decodeDecorations fun s r => { r with decorators := s }).may,
     Field.of "doc" decodeOptional fun s r => { r with doc := s },
     (Field.of "attributes" (decodeList decodeBinding) fun s r => { r with attributes := s }).may,
     (Field.of "methods" (decodeList (functionRecord.read {})) fun s r =>
       { r with methods := s }).may]

def manifestRecord : Record Manifest where
  name := "Manifest"
  fields :=
    [(Field.of "module" (infoRecord.read {}) fun s r => { r with info := s }).must,
     (Field.of "style" (styleRecord.read {}) fun s r => { r with style := s }).may,
     (Field.of "imports" (decodeList (importRecord.read {})) fun s r =>
       { r with imports := s }).may,
     (Field.of "classes" (decodeList (classRecord.read {})) fun s r => { r with classes := s }).may,
     (Field.of "functions" (decodeList (functionRecord.read {})) fun s r =>
       { r with functions := s }).may]

/-- Why a document cannot be read: it is no TOML, or a value in it does not fit. -/
inductive ReadError where
  | malformed
  | misfit (error : DecodeError)
deriving DecidableEq, Repr

/-- Reads the record that a whole document stands for. -/
def Record.readDocument {ρ : Type} (record : Record ρ) (start : ρ) (s : String) :
    Except ReadError ρ :=
  match Document.parse? s with
  | none => .error .malformed
  | some entries =>
    match record.readTable ⟨0, 0⟩ entries start with
    | .error e => .error (.misfit e)
    | .ok r => .ok r

def Style.read (s : String) : Except ReadError Style :=
  styleRecord.readDocument {} s

def Manifest.read (s : String) : Except ReadError Manifest :=
  manifestRecord.readDocument {} s

end Stencil
