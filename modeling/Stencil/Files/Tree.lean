import Stencil.Files.Path
import Stencil.Sink
import Stencil.WriteError

/-! A tree of files, and what the system does with paths into it. The working directory is
its root. -/

namespace Stencil

inductive FileContent where
  | text (s : String)
  /-- Bytes that are no text. -/
  | binary (bytes : List UInt8)
deriving DecidableEq, Repr

inductive Node where
  | directory
  | file (content : FileContent)
deriving DecidableEq, Repr

/-- The names on the way from the root to a node. -/
abbrev Location := List String

structure Tree where
  nodes : List (Location × Node) := []
deriving DecidableEq, Repr

namespace Tree

def get? (tree : Tree) (location : Location) : Option Node :=
  if location = [] then some .directory else tree.nodes.lookup location

def putNode (location : Location) (node : Node) :
    List (Location × Node) → List (Location × Node)
  | [] => [(location, node)]
  | (l, n) :: rest =>
    if l = location then (l, node) :: rest else (l, n) :: putNode location node rest

def put (tree : Tree) (location : Location) (node : Node) : Tree :=
  ⟨putNode location node tree.nodes⟩

/-- Goes along the parts of a path. Only directories can be passed. -/
def walk (tree : Tree) : Location → List (List Char) → Except SystemFault Location
  | location, [] => .ok location
  | location, part :: parts =>
    match tree.get? location with
    | none => .error .notFound
    | some (.file _) => .error .notADirectory
    | some .directory =>
      if part.isEmpty || part = ['.'] then tree.walk location parts
      else if part = ['.', '.'] then tree.walk location.dropLast parts
      else tree.walk (location ++ [String.ofList part]) parts

/-- The place that a path names; there may be nothing. -/
def resolve (tree : Tree) (path : String) : Except SystemFault Location :=
  if path.isEmpty then .error .notFound else tree.walk [] (pathParts path)

def node? (tree : Tree) (path : String) : Option Node :=
  match tree.resolve path with
  | .ok location => tree.get? location
  | .error _ => none

def isPresent (tree : Tree) (path : String) : Bool :=
  (tree.node? path).isSome

def isDirectory (tree : Tree) (path : String) : Bool :=
  tree.node? path = some .directory

def readFile (tree : Tree) (path : String) : Except SystemFault String :=
  match tree.resolve path with
  | .error fault => .error fault
  | .ok location =>
    match tree.get? location with
    | none => .error .notFound
    | some .directory => .error .isADirectory
    | some (.file (.binary _)) => .error .invalidData
    | some (.file (.text s)) => .ok s

def makeDirectory (tree : Tree) (path : String) : Outcome SystemFault Tree :=
  match tree.resolve path with
  | .error fault => .failed fault tree
  | .ok location =>
    match tree.get? location with
    | some _ => .failed .alreadyExists tree
    | none => .done (tree.put location .directory)

/-- A directory that could not be made because it is there counts as made. -/
def acceptDirectory (path : String) : Outcome SystemFault Tree → Outcome SystemFault Tree
  | .done tree => .done tree
  | .failed fault tree => if tree.isDirectory path then .done tree else .failed fault tree

/-- Makes the first of the directories; each one lies in the next one, which is made
before it if it is missing. -/
def makeDirectories (tree : Tree) : List String → Outcome SystemFault Tree
  | [] => .done tree
  | path :: up =>
    match tree.makeDirectory path with
    | .failed .notFound _ =>
      (tree.makeDirectories up).andThen fun t => acceptDirectory path (t.makeDirectory path)
    | outcome => acceptDirectory path outcome

def endsInSlash (path : String) : Bool :=
  path.toList.getLast? = some '/'

def dropEmptyEnd (parts : List (List Char)) : List (List Char) :=
  (parts.reverse.dropWhile List.isEmpty).reverse

/-- Makes or replaces a file in a directory that must be there. -/
def replaceFile (tree : Tree) (path : String) (content : FileContent) :
    Outcome SystemFault Tree :=
  if path.isEmpty then .failed .notFound tree
  else match tree.walk [] (dropEmptyEnd (pathParts path)) with
    | .error fault => .failed fault tree
    | .ok location =>
      if endsInSlash path || tree.get? location = some .directory then
        .failed .isADirectory tree
      else .done (tree.put location (.file content))

/-- Makes or replaces a file, and the directories that it lies in. -/
def writeFile (tree : Tree) (path : String) (content : String) : Outcome SystemFault Tree :=
  (tree.makeDirectories (((parent? path).map withParents).getD [])).andThen fun t =>
    t.replaceFile path (.text content)

/-- The locations of the directories that a location lies in, the outermost first. -/
def parentsOf (location : Location) : List Location :=
  (List.range location.length).tail.map location.take

/-- Adds a node, and the directories that it lies in. -/
def plant (tree : Tree) (path : String) (node : Node) : Tree :=
  let location := ((pathParts path).filter (!·.isEmpty)).map String.ofList
  let ready := (parentsOf location).foldl
    (fun t l => if (t.get? l).isNone then t.put l .directory else t) tree
  ready.put location node

/-- The path of a node from the root; that of a directory ends in a slash. -/
def listedPath : Location × Node → String
  | (location, .directory) => "/".intercalate location ++ "/"
  | (location, .file _) => "/".intercalate location

/-- Every node with its path, in the order of the paths. -/
def listing (tree : Tree) : List (String × Node) :=
  (tree.nodes.map fun entry => (listedPath entry, entry.2)).mergeSort fun a b =>
    !decide (b.1 < a.1)

end Tree

end Stencil
