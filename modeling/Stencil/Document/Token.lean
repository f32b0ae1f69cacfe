import Stencil.Document.Quote

/-! The words and marks of a TOML document, each with its place. -/

namespace Stencil.Document

inductive Lexeme where
  /-- Spaces and tabs. -/
  | blank (text : List Char)
  | newline
  | comment
  /-- One of the characters that structure a document. -/
  | mark (c : Char)
  /-- A run of other characters: part of a key, a number, a date or a word. -/
  | bare (text : List Char)
  /-- Quoted text, of one line or of several. -/
  | quoted (long : Bool) (text : String)

structure Token where
  lexeme : Lexeme
  span : Span

def isMark (c : Char) : Bool :=
  c = '.' || c = ',' || c = '=' || c = '[' || c = ']' || c = '\x7b' || c = '\x7d'

def isSpaceOrTab (c : Char) : Bool :=
  c = ' ' || c = '\t'

def isBare (c : Char) : Bool :=
  !isMark c && !isSpaceOrTab c && c != '\n' && c != '\r' && c != '#' && c != '"' && c != '\''

def quotedLexeme (long : Bool) (opening : Nat) (s : Option Scanned) :
    Option (Lexeme × Nat × List Char) :=
  s.map fun s => (.quoted long (String.ofList s.text), opening + s.size, s.rest)

/-- The first lexeme of a text that is not empty, its size in bytes, and what follows. -/
def lexeme? : List Char → Option (Lexeme × Nat × List Char)
  | [] => none
  | '"' :: '"' :: '"' :: cs => quotedLexeme true 3 (readLongFrom '"' true cs)
  | '\'' :: '\'' :: '\'' :: cs => quotedLexeme true 3 (readLongFrom '\'' false cs)
  | '"' :: cs => quotedLexeme false 1 (readBasic .plain cs)
  | '\'' :: cs => quotedLexeme false 1 (readLiteral cs)
  | '\n' :: cs => some (.newline, 1, cs)
  | '\r' :: '\n' :: cs => some (.newline, 2, cs)
  | '#' :: cs =>
    let text := cs.takeWhile fun c => c != '\n' && c != '\r'
    if text.any isForbidden then none
    else some (.comment, 1 + byteSize text, cs.drop text.length)
  | c :: cs =>
    if isMark c then some (.mark c, c.utf8Size, cs)
    else
      let text := (c :: cs).takeWhile (if isSpaceOrTab c then isSpaceOrTab else isBare)
      if text.isEmpty then none
      else some (if isSpaceOrTab c then .blank text else .bare text,
        byteSize text, (c :: cs).drop text.length)

/-- All tokens from the byte `start` on; `fuel` bounds their number. -/
def scanFrom : Nat → Nat → List Char → Option (List Token)
  | _, _, [] => some []
  | 0, _, _ => none
  | fuel + 1, start, cs =>
    match lexeme? cs with
    | none => none
    | some (lexeme, size, rest) =>
      (scanFrom fuel (start + size) rest).map (⟨lexeme, ⟨start, start + size⟩⟩ :: ·)

/-- A byte order mark at the very beginning is skipped. -/
def tokens? (s : String) : Option (List Token) :=
  match s.toList with
  | '\ufeff' :: cs => scanFrom cs.length 3 cs
  | cs => scanFrom cs.length 0 cs

end Stencil.Document
