import Stencil.Text.Split

/-! Paths as they are written: parts between slashes. Nothing is resolved here, so a path
keeps its dots and doubled slashes. -/

namespace Stencil

def pathParts (path : String) : List (List Char) :=
  splitOn '/' path.toList

def isAbsolute (path : String) : Bool :=
  path.toList.head? = some '/'

/-- The path of `path` seen from `base`. -/
def joinPath (base path : String) : String :=
  if isAbsolute path || base.isEmpty then path
  else if base.toList.getLast? = some '/' then base ++ path
  else base ++ "/" ++ path

/-- Drops, from the end of a path, the parts that name nothing: empty ones, and dots that
do not begin the path. The parts are given last first. -/
def dropIdle : List (List Char) → List (List Char)
  | [] => []
  | [part] => if part.isEmpty then [] else [part]
  | part :: rest => if part.isEmpty || part = ['.'] then dropIdle rest else part :: rest

def joinParts (parts : List (List Char)) : String :=
  "/".intercalate (parts.map String.ofList)

/-- The path without the last part that names something. -/
def parent? (path : String) : Option String :=
  match dropIdle (pathParts path).reverse with
  | [] => none
  | _ :: rest =>
    match dropIdle rest with
    | [] => some (if isAbsolute path then "/" else "")
    | kept => some (joinParts kept.reverse)

/-- The path and those of the directories that it lies in, the nearest first, up to but
without the working directory and the root. -/
def withParents (path : String) : List String :=
  go (pathParts path).length path
where
  go : Nat → String → List String
    | 0, _ => []
    | fuel + 1, path =>
      match parent? path with
      | none => []
      | some up => path :: go fuel up

end Stencil
