import Dialogue.Grammar.Prose

/-!
# Statements

The statements that become one node each.
-/

namespace Dialogue.Grammar

open Dialogue.Parser

/-- An optional speaker, a mark, and what is said. -/
def dialog (inner : Nested) (mark : Char) : Rule (Option String × Expr .text) :=
  atOwnIndent do
    let speaker ← optional identifier
    let _ ← blanks
    let _ ← char mark
    let _ ← spaces
    let said ← text inner
    return (speaker, said)

/-- A line that takes the place of those before. -/
def say (inner : Nested) : Rule Node := (fun (s, e) => .say s e) <$> dialog inner ':'

/-- A line that is added to those before. -/
def append (inner : Nested) : Rule Node := (fun (s, e) => .append s e) <$> dialog inner '+'

/-- Clears the view, or a part of it. -/
def clear : Rule Node := do
  let _ ← keyword "clear"
  -- Blanks that end the line ask for nothing in particular.
  match ← optional (blanks1 <* notFollowedBy eol "") with
  | none => return .clear .all
  | some _ =>
    .clear <$>
      ((fun _ => .all) <$> keyword "all"
        <|> (fun _ => .choices) <$> keyword "choices"
        <|> (fun _ => .dialog) <$> keyword "dialog")

/-- Waits for a choice. -/
def choose : Rule Node := (fun _ => .choose) <$> keyword "choose"

/-- An id in brackets. -/
def bracketed : Rule String := do
  let _ ← char '['
  let _ ← blanks
  let id ← identifier
  let _ ← blanks
  let _ ← char ']'
  return id

/-- Goes to a block, which may come later in the script. -/
def jump : Rule Node := do
  let _ ← keyword "jump"
  let _ ← blanks1
  let index ← position
  let id ← bracketed <|> identifier
  record (·.jumpTo index id)
  return .jump id

/-- Waits for the host. -/
def wait : Rule Node := (fun _ => .wait) <$> keyword "wait"

/-- A unit of time, in seconds. -/
def timeUnit : Rule Float :=
  (fun _ => 0.001) <$> (keyword "milliseconds" <|> keyword "ms")
    <|> (fun _ => 1) <$> (keyword "seconds" <|> keyword "s")
    <|> (fun _ => 60) <$> (keyword "minutes" <|> keyword "m")

/-- Waits for some time. -/
def pause (registry : Registry) (inner : Nested) : Rule Node := do
  let _ ← keyword "pause"
  let _ ← blanks1
  let amount ← sum registry inner
  let _ ← blanks
  let unit ← timeUnit
  return .pause (Expr.arith .multiply amount (.literal (k := .number) unit)).simplify

/-- Leaves the block. -/
def leave : Rule Node := (fun _ => .leave) <$> keyword "return"

/-- A statement that becomes one node. -/
def node (registry : Registry) (inner : Nested) : Rule Node :=
  -- A speaker may be called like a statement, so the mark behind the word is looked for first.
  say inner <|> append inner <|> clear <|> choose <|> jump <|> wait
    <|> pause registry inner <|> leave

end Dialogue.Grammar
