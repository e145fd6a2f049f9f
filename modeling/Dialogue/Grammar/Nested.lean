import Dialogue.Binding
import Dialogue.Compile.Facts
import Dialogue.Outline

/-!
# Nested rules

The rules of the grammar contain each other: an expression in parentheses is an
expression, a label has a script below it. A rule does not refer to another one that
contains it, but takes it from a record, the rules that may be *nested* in it. Every
nested rule starts further ahead than the one it is nested in.
-/

namespace Dialogue.Grammar

/-- The rules that others are nested in, for use further ahead. -/
structure Nested where
  /-- Numbers added and subtracted. -/
  sum : Rule (Expr .number)
  /-- Truth values joined by `or`. -/
  disjunction : Rule (Expr .boolean)
  /-- A truth value that may be negated. -/
  unary : Rule (Expr .boolean)
  /-- A text as an operand. -/
  operand : Rule (Expr .text)
  /-- What stands between quotes. -/
  quoted : Rule (Expr .text)
  /-- The rest of a line of text. -/
  textLine : Rule (Expr .text)
  /-- Lines of one level. -/
  script : Rule Outline

/-- Rules that may be nested no deeper. -/
def Nested.none : Nested :=
  let stop {α : Type} : Rule α := fun c f => .fatal c.index .endless f
  ⟨stop, stop, stop, stop, stop, stop, stop⟩

/-- The bindings that a script may call, by name. -/
abbrev Registry := String → Option Signature

/-- A nested expression of a category. -/
def Nested.expr (inner : Nested) : (k : Category) → Rule (Expr k)
  | .number => inner.sum
  | .boolean => inner.disjunction
  | .text => inner.operand

end Dialogue.Grammar
