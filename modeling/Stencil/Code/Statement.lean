import Stencil.Element
import Stencil.Text.Blank
import Stencil.Text.Lines

/-! Statements that stand on lines of their own. -/

namespace Stencil

namespace Element

def pass : Element :=
  .line "pass"

def assign (target value : String) : Element :=
  .line (target ++ " = " ++ value)

def returns : Option String → Element
  | some value => .line ("return " ++ value)
  | none => .line "return"

/-- One comment line per line of the text. -/
def comment (s : String) : Element :=
  .seq ((lines s).map fun l => .line (if l.isEmpty then "#" else "# " ++ l))

end Element

/-- Puts a backslash before each quote of a run of three. -/
def escapeTriples : List Char → List Char
  | '"' :: '"' :: '"' :: rest => '\\' :: '"' :: '\\' :: '"' :: '\\' :: '"' :: escapeTriples rest
  | c :: rest => c :: escapeTriples rest
  | [] => []

/-- Puts a backslash before a quote at the end, which would otherwise meet the closing
ones, unless there is a backslash already. -/
def escapeLastQuote (cs : List Char) : List Char :=
  match cs.reverse with
  | '"' :: '\\' :: _ => cs
  | '"' :: rest => ('"' :: '\\' :: rest).reverse
  | _ => cs

def tripleQuote : String :=
  "\"\"\""

/-- Text of one line stands between its quotes; longer text has the quotes on lines of
their own. -/
def Element.docstring (s : String) : Element :=
  let inner := escapeTriples (trimBoth s.toList)
  if inner.contains '\n' then
    .seq (.line tripleQuote
      :: (charLines inner).map (fun l => .line (String.ofList (trimRight l)))
      ++ [.line tripleQuote])
  else
    .line (tripleQuote ++ String.ofList (escapeLastQuote inner) ++ tripleQuote)

end Stencil
