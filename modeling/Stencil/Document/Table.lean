import Stencil.Document.Value

/-! How the statements of a TOML document add up to one table. No statement may define
what another one has defined: a value is final, an inline table is complete, a table has
one header, and dotted keys only extend tables that dotted keys made. -/

namespace Stencil.Document

/-- A header opens a table, or another table of an array; the assignments after it belong
to that table. -/
inductive Statement where
  | header (isArray : Bool) (path : List Key) (key : Key) (span : Span)
  | assign (path : List Key) (key : Key) (value : Value)

/-- Changes the last of the items. -/
def modifyLast? (f : Value → Option Value) : List Value → Option (List Value)
  | [] => none
  | [v] => (f v).map ([·])
  | v :: vs => (modifyLast? f vs).map (v :: ·)

/-- Changes the table that a path enters next: a table, or the last one of an array of
tables. Inline tables are closed, and a dotted path cannot enter a table that has a
header. -/
def enter? (isDotted : Bool) (change : TableOrigin → Entries → Option Entries) :
    Value → Option Value
  | .table span origin inner =>
    if origin = .inline || (isDotted && origin = .header) then none
    else (change origin inner).map (.table span origin)
  | .array span true items =>
    (modifyLast? (fun
      | .table s origin inner => (change origin inner).map (.table s origin)
      | _ => none) items).map (.array span true)
  | _ => none

/-- Goes down from a table along a path, making the tables that are missing, and changes
the table at its end. `change` is told how that table came about. -/
def modifyAt? (isDotted : Bool) (change : TableOrigin → Entries → Option Entries) :
    List Key → TableOrigin → Entries → Option Entries
  | [], origin, entries => change origin entries
  | key :: path, _, entries =>
    match entries.get? key.name with
    | none =>
      let origin := if isDotted then TableOrigin.dotted else TableOrigin.implied
      match modifyAt? isDotted change path origin [] with
      | some inner => entries.add? key (.table key.span origin inner)
      | none => none
    | some _ =>
      entries.modify? key.name fun k v =>
        (enter? isDotted (modifyAt? isDotted change path) v).map fun w => (k, w)

/-- Adds a value under a key that may be dotted. -/
def assign? (path : List Key) (key : Key) (value : Value) (entries : Entries) : Option Entries :=
  modifyAt? true
    (fun origin entries =>
      if path.isEmpty || origin = .dotted then entries.add? key value else none)
    path .header entries

/-- Opens the table of a header: a new one, or one that was only implied so far. -/
def openTable? (key : Key) (span : Span) (entries : Entries) : Option Entries :=
  match entries.get? key.name with
  | none => entries.add? key (.table span .header [])
  | some _ => entries.modify? key.name fun
    | _, .table _ .implied inner => some (key, .table span .header inner)
    | _, _ => none

/-- Opens one more table of an array. -/
def openItem? (key : Key) (span : Span) (entries : Entries) : Option Entries :=
  match entries.get? key.name with
  | none => entries.add? key (.array span true [.table span .header []])
  | some _ => entries.modify? key.name fun
    | k, .array s true items => some (k, .array s true (items ++ [.table span .header []]))
    | _, _ => none

/-- The document so far, and the path of the open table. -/
structure Draft where
  entries : Entries := []
  current : List Key := []

def Draft.add? (draft : Draft) : Statement → Option Draft
  | .header isArray path key span =>
    let opened := if isArray then openItem? key span else openTable? key span
    (modifyAt? false (fun _ entries => opened entries) path .header draft.entries).map
      fun entries => { entries := entries, current := path ++ [key] }
  | .assign path key value =>
    (modifyAt? false (fun _ entries => assign? path key value entries) draft.current .header
      draft.entries).map fun entries => { draft with entries := entries }

def document? (statements : List Statement) : Option Entries :=
  (statements.foldlM Draft.add? {}).map Draft.entries

end Stencil.Document
