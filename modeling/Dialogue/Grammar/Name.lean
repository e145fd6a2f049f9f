import Dialogue.Parser.Layout

/-!
# Names

The names of a script: the ids of blocks, the speakers, the variables and the bindings.
A token of an expression may be preceded by white space, line breaks included, as long
as its line is indented like the reference line or more.
-/

namespace Dialogue.Grammar

open Dialogue.Parser

variable {σ α : Type}

/-- The words that name no variable and no binding. -/
def reserved : List String := ["true", "false", "and", "or", "xor", "not", "is"]

/-- Reads `p` as a token of an expression. -/
def lexeme (p : Parser σ α) : Parser σ α := do
  let _ ← spaces
  let _ ← sameOrIndented
  p

/-- A name. It starts neither with an ASCII digit nor with an underscore. -/
def identifier : Parser σ String :=
  String.ofList <$>
    ((takeWhile1 Text.isWord "identifier").filter (!·.head?.any Char.isDigit) "identifier").filter
      (·.head? ≠ some '_') "identifier (names starting with '_' are reserved)"

/-- A name that is no reserved word. -/
def unreserved : Parser σ String := identifier.filter (!reserved.contains ·) "name"

/-- The name of a variable: not reserved, and no call. -/
def variableName : Parser σ String := unreserved <* notFollowedBy (char '(') "variable"

end Dialogue.Grammar
