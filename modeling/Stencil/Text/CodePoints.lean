/-! Sets of characters given by ranges of code points. -/

namespace Stencil

/-- Closed ranges of code points. -/
structure CodePoints where
  ranges : List (Nat × Nat)

def CodePoints.has (set : CodePoints) (c : Char) : Bool :=
  set.ranges.any fun (low, high) => low ≤ c.toNat && c.toNat ≤ high

end Stencil
