import Stencil.CommandLine.Run

/-! The program: the commands, run on the files of the system. -/

namespace Stencil

def SystemFault.ofError : IO.Error → SystemFault
  | .alreadyExists .. => .alreadyExists
  | .noFileOrDirectory .. => .notFound
  | .noSuchThing .. => .notFound
  | .resourceVanished .. => .brokenPipe
  | .timeExpired .. => .timedOut
  | .inappropriateType .. => .isADirectory
  | _ => .other

/-- What an action gives, with its failure as a fault. -/
def guarded {α : Type} (action : IO α) : IO (Except SystemFault α) := do
  try
    return .ok (← action)
  catch e =>
    return .error (.ofError e)

def readText (path : String) : IO (Except SystemFault String) := do
  match ← guarded (IO.FS.readBinFile path) with
  | .error fault => return .error fault
  | .ok bytes =>
    match String.fromUTF8? bytes with
    | none => return .error .invalidData
    | some text => return .ok text

def writeText (path content : String) : IO Unit := do
  match parent? path with
  | none | some "" => pure ()
  | some directory => IO.FS.createDirAll directory
  IO.FS.writeFile path content

/-- The files of the system. -/
def Disk.system : Disk IO where
  isPresent path := do ((← IO.currentDir) / path).pathExists
  read := readText
  write path content := guarded (writeText path content)

end Stencil

def main (words : List String) : IO UInt32 := do
  let ending ← Stencil.runWords Stencil.Disk.system words
  IO.print ending.output
  unless ending.report.isEmpty do
    IO.eprintln ending.report
  return ending.exit.toUInt32
