import Dialogue.Digest.Base64
import Dialogue.Digest.Sha1
import Dialogue.Grammar.Statement

/-!
# Passages

A *passage* is a part of a script with lines of one level: the whole script, or what
stands below a label or an option. An option that has no id of its own gets one made
from its prompt.
-/

namespace Dialogue.Grammar

open Dialogue.Parser

/-- The id of an option with this prompt: an underscore, which no name in a script
    starts with, and a digest of the prompt. -/
def promptId (prompt : String) : String :=
  String.ofList ('_' :: Digest.Base64.encode (Digest.Sha1.digest prompt.toUTF8.toList))

/-- A passage below the current line, indented more than the reference. -/
def below (inner : Nested) : Rule Outline := do
  lineEnd
  let _ ← spaces
  let _ ← indented
  inner.script

/-- A label, with the passage that it names. -/
def label (inner : Nested) : Rule Outline := do
  let _ ← keyword "label"
  let _ ← blanks1
  let index ← position
  let id ← bracketed
  Rule.declare index id
  let body ← below inner
  return .label id body .nil

/-- An option that has no id yet: where it starts, its prompt and its passage. -/
structure Unnamed where
  /-- The offset of the option. -/
  index : Nat
  /-- Its prompt. -/
  prompt : Expr .text
  /-- The passage below it. -/
  body : Outline

/-- An option of a choice. -/
def option (inner : Nested) : Rule Unnamed := do
  let index ← position
  let prompt ← prompt inner
  let body ← below inner
  return ⟨index, prompt, body⟩

/-- Gives options their ids. The first one gets the id of the choice, if it has one; two
    options with one prompt cannot both go without. -/
def nameOptions : (explicit : Option String) → List Unnamed → Rule Outline
  | _, [] => return .nil
  | some id, o :: rest => .option id o.prompt o.body <$> nameOptions none rest
  | none, o :: rest => do
    let id := promptId o.prompt.text
    if (← journal).isDeclared id then fatalAt o.index (.offeredTwice o.prompt.text)
    Rule.declare o.index id
    .option id o.prompt o.body <$> nameOptions none rest

/-- A choice: its options, on lines of one level. -/
def choice (inner : Nested) : Rule Outline := do
  let _ ← keyword "choice"
  let named ← optional do
    let _ ← blanks1
    let index ← position
    return (index, ← bracketed)
  if let some (index, id) := named then Rule.declare index id
  lineEnd
  let _ ← spaces
  let _ ← indented
  let options ← atOwnIndent (block (option inner) (same <* lookAhead (char '>')) 1)
  nameOptions (named.map (·.2)) options

/-- A line of a passage, with all that is below it. -/
def line (registry : Registry) (inner : Nested) : Rule Outline :=
  (fun n => .node n .nil) <$> node registry inner <|> choice inner <|> label inner

/-- Lines of one level, the level of the first. -/
def script (registry : Registry) (inner : Nested) : Rule Outline := do
  let _ ← spaces
  let lines ← atOwnIndent (block (line registry inner) same 0)
  return Outline.concat lines

end Dialogue.Grammar
