import Stencil.Text.Blank

/-! How generated code looks: what one level of indentation is, and what ends a line. -/

namespace Stencil

inductive Indent where
  | spaces (width : Nat)
  | tab
deriving DecidableEq, Repr

inductive LineEnding where
  | lf
  | crlf
  | native
deriving DecidableEq, Repr

inductive StyleError where
  | indent (text : String)
  | lineEnding (text : String)
deriving DecidableEq, Repr

def StyleError.message : StyleError → String
  | .indent text =>
    "invalid indentation '" ++ text
      ++ "', expected 'tab' or a number of spaces (e.g. 'spaces4' or '4')"
  | .lineEnding text =>
    "invalid line ending '" ++ text ++ "', expected 'lf', 'crlf' or 'native'"

/-- The text of one level. -/
def Indent.unit : Indent → String
  | .spaces width => String.ofList (List.replicate width ' ')
  | .tab => "\t"

def Indent.name : Indent → String
  | .spaces width => "spaces" ++ width.repr
  | .tab => "tab"

/-- A number held in a byte, with one more ASCII digit; none if it does not fit any longer. -/
def appendDigit (n : UInt8) (c : Char) : Option UInt8 :=
  let next := 10 * n.toNat + (c.toNat - '0'.toNat)
  if c.isDigit && next < UInt8.size then some (UInt8.ofNat next) else none

/-- One or more ASCII digits, a plus sign before them or not. The number has to fit in a byte. -/
def readByte (cs : List Char) : Option UInt8 :=
  let digits := match cs with
    | '+' :: rest => rest
    | _ => cs
  if digits.isEmpty then none else digits.foldlM appendDigit 0

/-- A width is a number of spaces, and not none. -/
def readWidth (cs : List Char) : Option Nat :=
  ((readByte cs).map UInt8.toNat).filter (0 < ·)

/-- The text after a leading `word`, or all of it. -/
def dropWord (word cs : List Char) : List Char :=
  if word.isPrefixOf cs then cs.drop word.length else cs

/-- Reads `tab`, `tabs`, `spacesN` or `N`. -/
def Indent.parse (s : String) : Except StyleError Indent :=
  let name := trimBoth s.toList
  let lower := name.map Char.toLower
  if lower = "tab".toList || lower = "tabs".toList then .ok .tab
  else match readWidth (dropWord "spaces".toList name) with
    | some width => .ok (.spaces width)
    | none => .error (.indent (String.ofList name))

def LineEnding.terminator : LineEnding → String
  | .lf => "\n"
  | .crlf => "\r\n"
  | .native => "\n"

def LineEnding.name : LineEnding → String
  | .lf => "lf"
  | .crlf => "crlf"
  | .native => "native"

/-- The ending with exactly this name. -/
def LineEnding.ofName? (s : String) : Option LineEnding :=
  if s = "lf" then some .lf
  else if s = "crlf" then some .crlf
  else if s = "native" then some .native
  else none

/-- Reads a name in any ASCII case, white space around it or not. -/
def LineEnding.parse (s : String) : Except StyleError LineEnding :=
  match LineEnding.ofName? (String.ofList ((trimBoth s.toList).map Char.toLower)) with
  | some ending => .ok ending
  | none => .error (.lineEnding s)

structure Style where
  indent : Indent := .spaces 4
  lineEnding : LineEnding := .native
deriving DecidableEq, Repr

/-- How a single element is shown. -/
def Style.plain : Style where
  indent := .spaces 4
  lineEnding := .lf

end Stencil
