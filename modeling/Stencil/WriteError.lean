/-! Why text did not reach its destination. -/

namespace Stencil

/-- What the system reports about a file or a stream. -/
inductive SystemFault where
  | alreadyExists
  | brokenPipe
  | invalidData
  | isADirectory
  | notADirectory
  | notFound
  | other
  | timedOut
  | writeZero
deriving DecidableEq, Repr

inductive WriteError where
  | system (fault : SystemFault)
  | format
deriving DecidableEq, Repr

def WriteError.message : WriteError → String
  | .system _ => "failed to write to output"
  | .format => "failed to format output"

end Stencil
