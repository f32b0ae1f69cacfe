import Stencil.Manifest.Check
import Stencil.Manifest.Decode
import Stencil.WriteError

/-! What is said about a manifest that cannot be used. -/

namespace Stencil

/-- A remark on a stretch of the document. -/
structure Label where
  text : String
  span : Span
deriving DecidableEq, Repr

inductive ManifestError where
  | unreadable (path : String) (fault : SystemFault)
  | unparsed (error : ReadError)
  | faulty (fault : Fault)
deriving DecidableEq, Repr

namespace NameFlaw

/-- The rule that is broken; a keyword breaks none of those about characters. -/
def reason : NameFlaw → String
  | keyword => "name is a keyword"
  | empty => "name cannot be empty"
  | badStart => "name must start with a letter or underscore"
  | badCharacter => "name must contain only letters, numbers, and underscores"
  | emptySegment => "dotted names cannot contain empty segments"

end NameFlaw

namespace Fault

def message : Fault → String
  | badName name _ .keyword _ => "'" ++ name ++ "' is a Python keyword"
  | badName name kind _ _ => "invalid " ++ kind ++ " name '" ++ name ++ "'"
  | duplicate name kind _ _ => "duplicate name '" ++ name ++ "' (" ++ kind ++ ")"
  | other message _ => message

def code : Fault → String
  | badName _ _ .keyword _ => "pyper::reserved_keyword"
  | badName _ _ _ _ => "pyper::invalid_identifier"
  | duplicate _ _ _ _ => "pyper::duplicate_name"
  | other _ _ => "pyper::validation_error"

def help? : Fault → Option String
  | badName name _ .keyword _ =>
    some ("rename '" ++ name ++ "' to something else, e.g. '" ++ name ++ "_'")
  | badName _ _ flaw _ =>
    some (flaw.reason
      ++ ". Use only letters, numbers, and underscores, starting with a letter or underscore.")
  | duplicate _ _ _ _ =>
    some "the second definition would shadow the first; rename or remove one of them"
  | other _ _ => none

/-- A label whose place is not known is left out. -/
def labels : Fault → List Label
  | badName _ _ .keyword place => (place.map (⟨"keyword used here", ·⟩)).toList
  | badName _ _ _ place => (place.map (⟨"invalid identifier", ·⟩)).toList
  | duplicate _ _ first second =>
    (first.map (⟨"first defined here", ·⟩)).toList
      ++ (second.map (⟨"defined again here", ·⟩)).toList
  | other message place => (place.map (⟨message, ·⟩)).toList

end Fault

namespace ManifestError

def message : ManifestError → String
  | unreadable path _ => "failed to read '" ++ path ++ "'"
  | unparsed _ => "failed to parse pyper.toml"
  | faulty fault => fault.message

def code? : ManifestError → Option String
  | unreadable _ _ => none
  | unparsed _ => some "pyper::parse_error"
  | faulty fault => some fault.code

def help? : ManifestError → Option String
  | unreadable _ _ => some "run 'pyper init <name>' to create a new pyper.toml"
  | unparsed _ => none
  | faulty fault => fault.help?

def labels : ManifestError → List Label
  | faulty fault => fault.labels
  | _ => []

end ManifestError

/-- Reads a manifest and checks it. -/
def Manifest.parse (document : String) : Except ManifestError Manifest :=
  match Manifest.read document with
  | .error e => .error (.unparsed e)
  | .ok m => match m.check document with
    | .error fault => .error (.faulty fault)
    | .ok () => .ok m

end Stencil
