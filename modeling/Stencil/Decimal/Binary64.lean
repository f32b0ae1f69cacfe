/-! Numbers with 53 significant binary digits, as far as a document can write them: the
number nearest to a decimal, and the shortest decimal that is nearest to a number. -/

namespace Stencil

/-- A finite number is `mantissa * 2 ^ exponent`. -/
inductive Binary64 where
  | nan
  | infinity (negative : Bool)
  | finite (negative : Bool) (mantissa : Nat) (exponent : Int)
deriving DecidableEq, Repr

/-- The quotient to the nearest whole number, a tie to the even one. -/
def roundDiv (num den : Nat) : Nat :=
  let q := num / den
  let r := num % den
  if 2 * r < den then q
  else if den < 2 * r then q + 1
  else if q % 2 = 0 then q else q + 1

/-- Numerator and denominator of `n * b ^ e`. -/
def scaled (n b : Nat) (e : Int) : Nat × Nat :=
  match e with
  | .ofNat k => (n * b.pow k, 1)
  | .negSucc k => (n, b.pow (k + 1))

namespace Binary64

/-- The least exponent, which the numbers closest to zero have. -/
def minExponent : Int := -1074

/-- The exponent of the largest numbers. -/
def maxExponent : Int := 971

/-- The least mantissa with 53 binary digits. -/
def leastMantissa : Nat := 4503599627370496

/-- The least mantissa that has too many digits. -/
def fullMantissa : Nat := 2 * leastMantissa

/-- The exponent with which a positive quotient has 53 binary digits before the point, or
the least exponent. -/
def exponentFor (num den : Nat) : Int :=
  let guess := max minExponent ((num.log2 : Int) - den.log2 - 53)
  let (n, d) := scaled num 2 (-guess)
  if fullMantissa * (den * d) ≤ n then guess + 1 else guess

def ofQuotient (negative : Bool) (num den : Nat) : Binary64 :=
  let exponent := exponentFor num den
  let (n, d) := scaled num 2 (-exponent)
  let mantissa := roundDiv n (den * d)
  let (mantissa, exponent) :=
    if mantissa = fullMantissa then (leastMantissa, exponent + 1) else (mantissa, exponent)
  if maxExponent < exponent then .infinity negative else .finite negative mantissa exponent

/-- The number nearest to `digits * 10 ^ exponent`. -/
def ofDecimal (negative : Bool) (digits : Nat) (exponent : Int) : Binary64 :=
  let magnitude := exponent + (Nat.toDigits 10 digits).length
  if digits = 0 || magnitude < -325 then .finite negative 0 minExponent
  else if 310 < magnitude then .infinity negative
  else
    let (num, den) := scaled digits 10 exponent
    ofQuotient negative num den

/-- The decimals that are nearest to a number, all in units of a quarter of some power of
ten: the number is `value`, and they reach from `below` under it to `above` over it. -/
structure Interval where
  value : Nat
  below : Nat
  above : Nat
  closed : Bool

def Interval.holds (i : Interval) (n : Nat) : Bool :=
  if i.closed then i.value ≤ n + i.below && n ≤ i.value + i.above
  else i.value < n + i.below && n < i.value + i.above

/-- A multiple of `step` in the interval, the nearer one of two. -/
def Interval.pick (i : Interval) (step : Nat) : Option Nat :=
  let low := i.value / step
  let high := low + 1
  match i.holds (low * step), i.holds (high * step) with
  | true, true =>
    if i.value - low * step < high * step - i.value then some low else some high
  | true, false => some low
  | false, true => some high
  | false, false => none

/-- The coarsest grid of step `10 ^ k`, with `k` at most the given bound, that has a point
in the interval: the point and `k`. -/
def Interval.coarsest (i : Interval) : Nat → Nat × Nat
  | 0 => (i.value / 4, 0)
  | k + 1 =>
    match i.pick (4 * Nat.pow 10 (k + 1)) with
    | some n => (n, k + 1)
    | none => i.coarsest k

/-- The shortest digits `d`, and the places `p`, such that `mantissa * 2 ^ exponent` is the
number nearest to `d / 10 ^ p`. -/
def shortest (mantissa : Nat) (exponent : Int) : Nat × Int :=
  let fine := (-exponent).toNat
  let base := if exponent < 0 then Nat.pow 5 fine else Nat.pow 2 exponent.toNat
  let narrow := mantissa = leastMantissa && minExponent < exponent
  let interval : Interval :=
    { value := 4 * mantissa * base
      below := if narrow then base else 2 * base
      above := 2 * base
      closed := mantissa % 2 = 0 }
  let (digits, k) := interval.coarsest (Nat.toDigits 10 (mantissa * base)).length
  (digits, (fine : Int) - k)

def dropTrailingZeros (digits : List Char) : List Char :=
  (digits.reverse.dropWhile (· == '0')).reverse

/-- Positional text with at least one digit on either side of the point. -/
def positional (digits : Nat) (places : Int) : String :=
  match places with
  | .ofNat p =>
    let cs := Nat.toDigits 10 digits
    let padded := List.replicate (p + 1 - cs.length) '0' ++ cs
    let whole := padded.take (padded.length - p)
    let part := dropTrailingZeros (padded.drop (padded.length - p))
    String.ofList whole ++ "." ++ (if part.isEmpty then "0" else String.ofList part)
  | .negSucc p =>
    String.ofList (Nat.toDigits 10 (digits * Nat.pow 10 (p + 1))) ++ ".0"

def text : Binary64 → String
  | nan => "NaN"
  | infinity negative => if negative then "-inf" else "inf"
  | finite negative mantissa exponent =>
    let (digits, places) := if mantissa = 0 then (0, 0) else shortest mantissa exponent
    (if negative then "-" else "") ++ positional digits places

end Binary64

end Stencil
