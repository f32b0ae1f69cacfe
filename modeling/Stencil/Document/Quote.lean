import Stencil.Text.Find

/-! The four kinds of quoted text in a TOML document. Readers start after the opening
quotes and go through the text character by character. -/

namespace Stencil.Document

/-- What a reader found: the text, the bytes it went over, and what follows. -/
structure Scanned where
  text : List Char
  size : Nat
  rest : List Char

/-- Went over `c`, which adds `added` to the text. -/
def Scanned.over (c : Char) (added : List Char) (s : Scanned) : Scanned :=
  { s with text := added ++ s.text, size := c.utf8Size + s.size }

/-- Characters that quoted text and comments cannot hold: all controls but the tab. -/
def isForbidden (c : Char) : Bool :=
  (c.toNat < 0x20 && c != '\t') || c.toNat == 0x7f

/-- What a backslash and one more character stand for. -/
def shortEscape? (c : Char) : Option Char :=
  if c = 'b' then some '\x08'
  else if c = 't' then some '\t'
  else if c = 'n' then some '\n'
  else if c = 'f' then some '\x0c'
  else if c = 'r' then some '\r'
  else if c = 'e' then some '\x1b'
  else if c = '"' then some '"'
  else if c = '\\' then some '\\'
  else none

/-- How many hexadecimal digits an escape by number has. -/
def escapeDigits? (c : Char) : Option Nat :=
  if c = 'x' then some 2
  else if c = 'u' then some 4
  else if c = 'U' then some 8
  else none

def hexValue? (c : Char) : Option Nat :=
  if '0' ≤ c ∧ c ≤ '9' then some (c.toNat - '0'.toNat)
  else if 'a' ≤ c ∧ c ≤ 'f' then some (c.toNat - 'a'.toNat + 10)
  else if 'A' ≤ c ∧ c ≤ 'F' then some (c.toNat - 'A'.toNat + 10)
  else none

/-- The character with this number, if it is one. -/
def scalar? (n : Nat) : Option Char :=
  if h : n.isValidChar then some (Char.ofNatAux n h) else none

/-- Where a reader stands. -/
inductive Inside where
  | plain
  /-- After a backslash. -/
  | escape
  /-- So many digits to go, and the number so far. -/
  | number (digits value : Nat)
  /-- After a carriage return, which needs its line feed. -/
  | ending
  /-- After a backslash and blanks, which need a line feed. -/
  | folding
  /-- After a folded line end, where white space is skipped. -/
  | folded
  /-- After a carriage return in folded white space. -/
  | foldedEnding

/-- One line between double quotes. -/
def readBasic : Inside → List Char → Option Scanned
  | .plain, c :: cs =>
    if c = '"' then some ⟨[], 1, cs⟩
    else if c = '\\' then (readBasic .escape cs).map (·.over c [])
    else if isForbidden c then none
    else (readBasic .plain cs).map (·.over c [c])
  | .escape, c :: cs =>
    match shortEscape? c, escapeDigits? c with
    | some d, _ => (readBasic .plain cs).map (·.over c [d])
    | none, some digits => (readBasic (.number digits 0) cs).map (·.over c [])
    | none, none => none
  | .number digits value, c :: cs =>
    match hexValue? c with
    | none => none
    | some d =>
      if digits ≤ 1 then
        match scalar? (16 * value + d) with
        | some e => (readBasic .plain cs).map (·.over c [e])
        | none => none
      else (readBasic (.number (digits - 1) (16 * value + d)) cs).map (·.over c [])
  | _, _ => none

/-- One line between single quotes. -/
def readLiteral : List Char → Option Scanned
  | [] => none
  | c :: cs =>
    if c = '\'' then some ⟨[], 1, cs⟩
    else if isForbidden c then none
    else (readLiteral cs).map (·.over c [c])

/-- How many quotes come first. -/
def leading (quote : Char) (cs : List Char) : Nat :=
  (cs.takeWhile (· == quote)).length

/-- Text over several lines, between three quotes and three quotes. Up to two more quotes
before the last three belong to the text. -/
def readLong (quote : Char) (escapes : Bool) : Inside → List Char → Option Scanned
  | .plain, c :: cs =>
    if c = quote && 3 ≤ leading quote (c :: cs) then
      let count := min (leading quote (c :: cs)) 5
      some ⟨List.replicate (count - 3) quote, count, (c :: cs).drop count⟩
    else if c = '\\' && escapes then (readLong quote escapes .escape cs).map (·.over c [])
    else if c = '\r' then (readLong quote escapes .ending cs).map (·.over c [c])
    else if c != '\n' && isForbidden c then none
    else (readLong quote escapes .plain cs).map (·.over c [c])
  | .ending, c :: cs =>
    if c = '\n' then (readLong quote escapes .plain cs).map (·.over c [c]) else none
  | .escape, c :: cs =>
    if c = ' ' || c = '\t' then (readLong quote escapes .folding cs).map (·.over c [])
    else if c = '\n' then (readLong quote escapes .folded cs).map (·.over c [])
    else if c = '\r' then (readLong quote escapes .foldedEnding cs).map (·.over c [])
    else match shortEscape? c, escapeDigits? c with
      | some d, _ => (readLong quote escapes .plain cs).map (·.over c [d])
      | none, some digits => (readLong quote escapes (.number digits 0) cs).map (·.over c [])
      | none, none => none
  | .number digits value, c :: cs =>
    match hexValue? c with
    | none => none
    | some d =>
      if digits ≤ 1 then
        match scalar? (16 * value + d) with
        | some e => (readLong quote escapes .plain cs).map (·.over c [e])
        | none => none
      else (readLong quote escapes (.number (digits - 1) (16 * value + d)) cs).map (·.over c [])
  | .folding, c :: cs =>
    if c = ' ' || c = '\t' then (readLong quote escapes .folding cs).map (·.over c [])
    else if c = '\n' then (readLong quote escapes .folded cs).map (·.over c [])
    else if c = '\r' then (readLong quote escapes .foldedEnding cs).map (·.over c [])
    else none
  | .folded, c :: cs =>
    if c = ' ' || c = '\t' || c = '\n' then
      (readLong quote escapes .folded cs).map (·.over c [])
    else if c = '\r' then (readLong quote escapes .foldedEnding cs).map (·.over c [])
    else if c = quote && 3 ≤ leading quote (c :: cs) then
      let count := min (leading quote (c :: cs)) 5
      some ⟨List.replicate (count - 3) quote, count, (c :: cs).drop count⟩
    else if c = '\\' then (readLong quote escapes .escape cs).map (·.over c [])
    else if isForbidden c then none
    else (readLong quote escapes .plain cs).map (·.over c [c])
  | .foldedEnding, c :: cs =>
    if c = '\n' then (readLong quote escapes .folded cs).map (·.over c []) else none
  | _, [] => none

/-- A line end right after the opening quotes is not part of the text. -/
def dropFirstLineEnd : List Char → Nat × List Char
  | '\n' :: cs => (1, cs)
  | '\r' :: '\n' :: cs => (2, cs)
  | cs => (0, cs)

def readLongFrom (quote : Char) (escapes : Bool) (cs : List Char) : Option Scanned :=
  let (skipped, rest) := dropFirstLineEnd cs
  (readLong quote escapes .plain rest).map fun s => { s with size := skipped + s.size }

end Stencil.Document
