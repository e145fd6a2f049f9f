import Dialogue.Grammar.Quote

/-!
# Prose

What a speaker says, and the prompt of an option. Both may go on over several lines,
which are joined by single spaces.
-/

namespace Dialogue.Grammar

open Dialogue.Parser

/-- The rest of a line of text. Blanks before it become one space, and spaces at the end
    of the line are dropped. -/
def textLine (inner : Nested) : Rule (Expr .text) := do
  let leading := if (← optional blanks1).isSome then " " else ""
  let run ← takeWhile fun c => !Text.isBreak c && c ≠ openBrace
  -- Only a run that ends its line is trimmed, and nothing but blanks says nothing, not even a
  -- space.
  if ← wouldMatch eol then
    match Text.trimEnd run with
    | [] => return .literal (k := .text) ""
    | run => return .literal (k := .text) (leading ++ String.ofList run)
  else
    let piece ← substitution inner
    let rest ← inner.textLine
    return .concat (.concat (.literal (k := .text) (leading ++ String.ofList run)) piece) rest

/-- A line after a text, with a space between them. -/
def spaced (text line : Expr .text) : Expr .text :=
  .concat (.concat text (.literal (k := .text) " ")) line

/-- Lines joined by single spaces. -/
def joinLines : List (Expr .text) → Expr .text
  | [] => .literal (k := .text) ""
  | e :: rest => (rest.foldl spaced e).simplify

/-- What a speaker says. Further lines are indented more than the reference. -/
def text (inner : Nested) : Rule (Expr .text) := joinLines <$> block (textLine inner) indented 1

/-- The mark before every line of a prompt. -/
def promptMark : Rule Unit := do
  let _ ← char '>'
  discard blanks

/-- The prompt of an option. Further lines are indented like the reference or more. -/
def prompt (inner : Nested) : Rule (Expr .text) :=
  joinLines <$> block (promptMark *> textLine inner) (sameOrIndented <* lookAhead promptMark) 1

end Dialogue.Grammar
