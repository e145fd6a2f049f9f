import Dialogue.Grammar.Logic
import Dialogue.Grammar.Passage

/-!
# The grammar

The rules of the grammar, with all that can be nested in them. A rule is nested in
another one only behind at least one character of it, so rules nested as deep as there
are bytes ahead are all that a parse can need.
-/

namespace Dialogue.Grammar

open Dialogue.Parser

/-- The rules, with others nested up to a depth. -/
def Nested.upTo (registry : Registry) : (depth : Nat) → Nested
  | 0 => .none
  | depth + 1 => {
      sum := fun c f => Grammar.sum registry (upTo registry depth) c f
      disjunction := fun c f => Grammar.disjunction registry (upTo registry depth) c f
      unary := fun c f => Grammar.unary registry (upTo registry depth) c f
      operand := fun c f => Grammar.operand registry (upTo registry depth) c f
      quoted := fun c f => Grammar.quoted (upTo registry depth) c f
      textLine := fun c f => Grammar.textLine (upTo registry depth) c f
      script := fun c f => Grammar.script registry (upTo registry depth) c f }

/-- A rule with all that can be nested in it ahead of the cursor. -/
def complete {α : Type} (registry : Registry) (rule : Nested → Rule α) : Rule α := fun c f =>
  rule (.upTo registry c.remaining) c f

/-- An arithmetic expression, simplified. -/
def math (registry : Registry) (inner : Nested) : Rule (Expr .number) :=
  Expr.simplify <$> sum registry inner

/-- A logic expression, simplified. -/
def logic (registry : Registry) (inner : Nested) : Rule (Expr .boolean) :=
  Expr.simplify <$> disjunction registry inner

/-- A comparison, simplified. -/
def simpleComparison (registry : Registry) (inner : Nested) : Rule (Expr .boolean) :=
  Expr.simplify <$> comparison registry inner

/-- The lines of a whole source. A source of white space has none. -/
def source (registry : Registry) : Rule Outline := fun start f =>
  let first := start.skipWhile Text.isSpace
  -- The column of the first line is what a line below the script is told to have.
  if first.atEnd then .ok .nil first f
  else
    (do
      let outline ← complete registry (script registry)
      let _ ← spaces
      notFollowedBy anyChar s!"line indented to column {first.column}"
      return outline : Rule Outline) start f

end Dialogue.Grammar
