import Stencil.Files.Tree

/-! Generated files. They are written through a disk, which may be the system's own or a
tree of files in memory. -/

namespace Stencil

/-- `write` makes the directories that the file lies in. -/
structure Disk (m : Type → Type) where
  isPresent : String → m Bool
  read : String → m (Except SystemFault String)
  write : String → String → m (Except SystemFault Unit)

/-- The disk whose files are a tree. -/
def Disk.tree : Disk (StateM Tree) where
  isPresent path := fun tree => (tree.isPresent path, tree)
  read path := fun tree => (tree.readFile path, tree)
  write path content := fun tree =>
    match tree.writeFile path content with
    | .done t => (.ok (), t)
    | .failed fault t => (.error fault, t)

/-- What to do about a file that is there, and what to put before its content. -/
structure FileRules where
  keepExisting : Bool := false
  header : Option String := none
deriving DecidableEq, Repr

def FileRules.apply (rules : FileRules) (content : String) : String :=
  match rules.header with
  | none => content
  | some header => if content.isEmpty then header ++ "\n" else header ++ "\n\n" ++ content

inductive Stored where
  | written
  | skipped
deriving DecidableEq, Repr

/-- Why a file was not stored: its content could not be made, or not written. -/
inductive StoreError where
  | content (message : String)
  | system (fault : SystemFault)
deriving DecidableEq, Repr

def StoreError.message : StoreError → String
  | .content message => message
  | .system fault => (WriteError.system fault).message

/-- Stores a file whose content may fail to be made. A file that is kept needs none. -/
def Disk.store {m : Type → Type} [Monad m] (disk : Disk m) (rules : FileRules) (path : String)
    (content : Except String String) : m (Except StoreError Stored) := do
  if rules.keepExisting && (← disk.isPresent path) then
    return .ok .skipped
  match content with
  | .error message => return .error (.content message)
  | .ok text =>
    match ← disk.write path (rules.apply text) with
    | .error fault => return .error (.system fault)
    | .ok () => return .ok .written

end Stencil
