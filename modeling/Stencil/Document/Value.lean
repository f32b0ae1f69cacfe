import Stencil.Document.Scalar
import Stencil.Text.Find

/-! The data of a TOML document. Every value knows its place: a scalar, an array or an
inline table is where it is written, a table with a header is where its header is, and a
table that only came about on the way to another one is where its key is. -/

namespace Stencil.Document

structure Key where
  name : String
  span : Span

inductive TableOrigin where
  /-- By a header of its own, or as the whole document. -/
  | header
  /-- On the way to the table of a header. -/
  | implied
  /-- On the way to a value, by a dotted key. -/
  | dotted
  /-- Written out as a value. -/
  | inline
deriving DecidableEq, Repr

/-- The entries of a table are sorted by the names of their keys. The items of an array
come from headers or are written out as values. -/
inductive Value where
  | string (span : Span) (s : String)
  | integer (span : Span) (n : Int)
  | float (span : Span) (x : Binary64)
  | boolean (span : Span) (b : Bool)
  | datetime (span : Span)
  | array (span : Span) (fromHeaders : Bool) (items : List Value)
  | table (span : Span) (origin : TableOrigin) (entries : List (Key × Value))

abbrev Entries := List (Key × Value)

def Value.span : Value → Span
  | .string span _ => span
  | .integer span _ => span
  | .float span _ => span
  | .boolean span _ => span
  | .datetime span => span
  | .array span _ _ => span
  | .table span _ _ => span

def Value.ofScalar (span : Span) : Scalar → Value
  | .boolean b => .boolean span b
  | .integer n => .integer span n
  | .float x => .float span x
  | .datetime => .datetime span

def Entries.get? (name : String) (entries : Entries) : Option Value :=
  (entries.find? fun entry => entry.1.name = name).map Prod.snd

/-- Puts a value in its place; the key must be new. -/
def Entries.add? (key : Key) (value : Value) : Entries → Option Entries
  | [] => some [(key, value)]
  | (k, v) :: rest =>
    if key.name = k.name then none
    else if key.name < k.name then some ((key, value) :: (k, v) :: rest)
    else (Entries.add? key value rest).map ((k, v) :: ·)

/-- Changes the value of a key that is present. -/
def Entries.modify? (name : String) (f : Key → Value → Option (Key × Value)) :
    Entries → Option Entries
  | [] => none
  | (k, v) :: rest =>
    if name = k.name then (f k v).map (· :: rest)
    else (Entries.modify? name f rest).map ((k, v) :: ·)

end Stencil.Document
