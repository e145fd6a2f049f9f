import Dialogue.Expr

/-!
# The text of an expression

Joined operands stand in parentheses. What is put into a text stands in braces, and a
text that is an operand or an argument stands in quotes.
-/

namespace Dialogue

/-- What is put into a text, in braces. -/
def braced (s : String) : String := "\x7b" ++ s ++ "\x7d"

/-- Two operands around an operator, in parentheses. -/
def parenthesized (l op r : String) : String := s!"({l} {op} {r})"

/-- A part of an expression of a category: braced where it is put into a text. -/
def partOf : Category → String → String
  | .text, s => braced s
  | _, s => s

/-- An operand or an argument of a category: quoted if it is a text. -/
def operandOf : Category → String → String
  | .text, s => "\"" ++ s ++ "\""
  | _, s => s

mutual

/-- The text of an expression. -/
def Expr.text : {k : Category} → Expr k → String
  | k, .literal v => k.textOf v
  | k, .variable name => partOf k name
  | k, .call name args =>
    let list := ", ".intercalate args.texts
    partOf k s!"{name}({list})"
  | _, .not e => "not " ++ e.text
  | _, .logic op l r => parenthesized l.text op.word r.text
  | _, .compare k op l r => parenthesized (operandOf k l.text) op.word (operandOf k r.text)
  | _, .compareVariables op l r => parenthesized l op.word r
  | _, .arith op l r => parenthesized l.text op.sign r.text
  | _, .concat l r => l.text ++ r.text
  | _, .ofNumber e => braced e.text
  | _, .ofBoolean e => braced e.text
  | _, .interpolate name => braced name

/-- The texts of arguments. -/
def Args.texts : Args → List String
  | .nil => []
  | .cons (k := k) e rest => operandOf k e.text :: rest.texts

end

/-- The text of an expression as an operand. -/
def Expr.operandText {k : Category} (e : Expr k) : String := operandOf k e.text

end Dialogue
