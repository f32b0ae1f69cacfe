import Stencil.Decimal.Binary64

/-! Values of a TOML document that are written without quotes: truth values, numbers, and
dates and times. -/

namespace Stencil.Document

inductive Scalar where
  | boolean (b : Bool)
  | integer (n : Int)
  | float (x : Binary64)
  | datetime
deriving DecidableEq, Repr

/-- The number written by ASCII digits. -/
def digitsValue (cs : List Char) : Nat :=
  cs.foldl (fun n c => 10 * n + (c.toNat - '0'.toNat)) 0

/-- Digits, with single underscores between them left out. -/
def plainDigits (isDigit : Char → Bool) : List Char → Option (List Char)
  | [] => none
  | [c] => if isDigit c then some [c] else none
  | c :: '_' :: rest => if isDigit c then (plainDigits isDigit rest).map (c :: ·) else none
  | c :: rest => if isDigit c then (plainDigits isDigit rest).map (c :: ·) else none

/-- Decimal digits without needless zeros in front. -/
def wholeDigits (cs : List Char) : Option (List Char) :=
  (plainDigits Char.isDigit cs).filter fun digits => digits.length = 1 || digits.head? != some '0'

/-- A sign, which may be missing, and what follows it. -/
def splitSign : List Char → Bool × List Char
  | '+' :: cs => (false, cs)
  | '-' :: cs => (true, cs)
  | cs => (false, cs)

def signed (negative : Bool) (n : Nat) : Int :=
  if negative then -(n : Int) else n

def hexDigitValue (c : Char) : Nat :=
  if c.isDigit then c.toNat - '0'.toNat
  else if 'a' ≤ c then c.toNat - 'a'.toNat + 10
  else c.toNat - 'A'.toNat + 10

def isHexDigit (c : Char) : Bool :=
  c.isDigit || ('a' ≤ c && c ≤ 'f') || ('A' ≤ c && c ≤ 'F')

def baseValue (base : Nat) (digits : List Char) : Nat :=
  digits.foldl (fun n c => base * n + hexDigitValue c) 0

/-- Numbers written in base 16, 8 or 2. They have no sign. -/
def readBased (cs : List Char) : Option Int :=
  match cs with
  | '0' :: 'x' :: rest => (plainDigits isHexDigit rest).map fun d => (baseValue 16 d : Int)
  | '0' :: 'o' :: rest =>
    (plainDigits (fun c => '0' ≤ c && c ≤ '7') rest).map fun d => (baseValue 8 d : Int)
  | '0' :: 'b' :: rest =>
    (plainDigits (fun c => c = '0' || c = '1') rest).map fun d => (baseValue 2 d : Int)
  | _ => none

def readWhole (cs : List Char) : Option Int :=
  let (negative, rest) := splitSign cs
  (wholeDigits rest).map fun digits => signed negative (digitsValue digits)

/-- Integers have 64 bits. -/
def readInteger (cs : List Char) : Option Int :=
  (readBased cs <|> readWhole cs).filter fun n =>
    -9223372036854775808 ≤ n && n ≤ 9223372036854775807

/-- The text before the first of the given characters, and the text after it. -/
def splitAt? (stop : Char → Bool) (cs : List Char) : List Char × Option (List Char) :=
  match cs.dropWhile (!stop ·) with
  | [] => (cs, none)
  | _ :: rest => (cs.takeWhile (!stop ·), some rest)

def readExponent : Option (List Char) → Option Int
  | none => some 0
  | some cs =>
    let (negative, rest) := splitSign cs
    (plainDigits Char.isDigit rest).map fun digits => signed negative (digitsValue digits)

def readFraction : Option (List Char) → Option (List Char)
  | none => some []
  | some cs => plainDigits Char.isDigit cs

/-- A decimal with a fraction, an exponent or both. It must not be out of range. -/
def readDecimalFloat (cs : List Char) : Option Binary64 :=
  let (negative, rest) := splitSign cs
  let (mantissa, exponent) := splitAt? (fun c => c = 'e' || c = 'E') rest
  let (whole, fraction) := splitAt? (· = '.') mantissa
  if exponent.isNone && fraction.isNone then none
  else match wholeDigits whole, readFraction fraction, readExponent exponent with
    | some w, some f, some e =>
      match Binary64.ofDecimal negative (digitsValue (w ++ f)) (e - f.length) with
      | .finite n m q => some (.finite n m q)
      | _ => none
    | _, _, _ => none

def readFloat (cs : List Char) : Option Binary64 :=
  let (negative, rest) := splitSign cs
  if rest = "inf".toList then some (.infinity negative)
  else if rest = "nan".toList then some .nan
  else readDecimalFloat cs

/-- A number of exactly so many digits, and what follows it. -/
def fixedDigits (count : Nat) (cs : List Char) : Option (Nat × List Char) :=
  let digits := cs.take count
  if digits.length = count && digits.all Char.isDigit then
    some (digitsValue digits, cs.drop count)
  else none

def isLeapYear (year : Nat) : Bool :=
  year % 4 = 0 && (year % 100 != 0 || year % 400 = 0)

def daysInMonth (year month : Nat) : Nat :=
  if month = 2 then (if isLeapYear year then 29 else 28)
  else if month = 4 || month = 6 || month = 9 || month = 11 then 30
  else 31

/-- What follows a date, written year, month and day. -/
def afterDate? (cs : List Char) : Option (List Char) :=
  match fixedDigits 4 cs with
  | some (year, '-' :: cs) =>
    match fixedDigits 2 cs with
    | some (month, '-' :: cs) =>
      match fixedDigits 2 cs with
      | some (day, cs) =>
        if 1 ≤ month && month ≤ 12 && 1 ≤ day && day ≤ daysInMonth year month then some cs
        else none
      | none => none
    | _ => none
  | _ => none

/-- What follows the seconds of a time, which may have a fraction. -/
def afterFraction? : List Char → Option (List Char)
  | '.' :: cs =>
    if (cs.takeWhile Char.isDigit).isEmpty then none else some (cs.dropWhile Char.isDigit)
  | cs => some cs

/-- What follows a time; its seconds may be missing, and can be 60. -/
def afterTime? (cs : List Char) : Option (List Char) :=
  match fixedDigits 2 cs with
  | some (hour, ':' :: cs) =>
    match fixedDigits 2 cs with
    | some (minute, cs) =>
      if hour < 24 && minute < 60 then
        match cs with
        | ':' :: cs =>
          match fixedDigits 2 cs with
          | some (second, cs) => if second ≤ 60 then afterFraction? cs else none
          | none => none
        | cs => some cs
      else none
    | none => none
  | _ => none

/-- A distance from universal time, or none. -/
def isOffset (cs : List Char) : Bool :=
  match cs with
  | [] => true
  | ['Z'] => true
  | ['z'] => true
  | c :: cs =>
    (c = '+' || c = '-') &&
      match fixedDigits 2 cs with
      | some (hour, ':' :: cs) =>
        match fixedDigits 2 cs with
        | some (minute, []) => hour < 24 && minute < 60
        | _ => false
      | _ => false

def isDatetime (cs : List Char) : Bool :=
  match afterDate? cs with
  | some [] => true
  | some (c :: rest) =>
    (c = 'T' || c = 't' || c = ' ') && ((afterTime? rest).map isOffset).getD false
  | none => afterTime? cs == some []

def readScalar (cs : List Char) : Option Scalar :=
  if cs = "true".toList then some (.boolean true)
  else if cs = "false".toList then some (.boolean false)
  else if isDatetime cs then some .datetime
  else (readInteger cs).map .integer <|> (readFloat cs).map .float

end Stencil.Document
