import Dialogue.Grammar.Arithmetic

/-!
# Quotes and substitutions

A text as an operand of an expression is a quote, a call or a variable. A quote may
hold escaped characters. It may also hold *substitutions*, expressions in braces that
are put into the text, as the text of a line may.
-/

namespace Dialogue.Grammar

open Dialogue.Parser

/-- The opening brace of a substitution. -/
def openBrace : Char := '\x7b'

/-- The closing brace of a substitution. -/
def closeBrace : Char := '\x7d'

/-- An expression in braces. A variable alone is put in as whatever it holds; otherwise
    arithmetic is tried first, then logic, then a text. -/
def substitution (inner : Nested) : Rule (Expr .text) := do
  let close : Rule Unit := do
    let _ ← spaces
    discard (char closeBrace)
  let _ ← char openBrace
  (do
      let _ ← spaces
      let name ← variableName
      close
      return .interpolate name)
    <|> (fun e => .ofNumber e.simplify) <$> (inner.sum <* close)
    <|> (fun e => .ofBoolean e.simplify) <$> (inner.disjunction <* close)
    <|> inner.operand <* close

/-- A backslash and the character that it stands for. -/
def escape : Rule Char := do
  let _ ← char '\\'
  (fun _ => '\n') <$> char 'n'
    <|> (fun _ => '\r') <$> char 'r'
    <|> char openBrace
    <|> char '"'
    <|> char '\\'

/-- Does a character end a run of plain characters between quotes? -/
def endsRun (c : Char) : Bool := c = '\\' || c = openBrace || c = '"'

/-- What stands between quotes: runs of plain characters, with escaped characters and
    substitutions in between. -/
def quoted (inner : Nested) : Rule (Expr .text) := do
  let run ← takeWhile (!endsRun ·)
  lookAhead (satisfy endsRun "closing '\"'")
  let head := Expr.literal (k := .text) (String.ofList run)
  -- What is neither is the closing quote, or a mistake that is met in its place.
  let piece ← match ← optional escape with
    | some c => pure (some (Expr.literal (k := .text) (String.singleton c)))
    | none => optional (substitution inner)
  match piece with
  | some piece => do
    let rest ← inner.quoted
    return .concat (.concat head piece) rest
  | none => return head

/-- A text in quotes. -/
def quote (inner : Nested) : Rule (Expr .text) := do
  let _ ← char '"'
  let e ← quoted inner
  let _ ← char '"'
  return e.simplify

/-- A text as an operand. -/
def operand (registry : Registry) (inner : Nested) : Rule (Expr .text) :=
  lexeme (quote inner)
    <|> lexeme (call registry inner .text)
    <|> lexeme (variableOf .text)

end Dialogue.Grammar
