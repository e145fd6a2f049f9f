import Dialogue.Expr.Simplify
import Dialogue.Grammar.Name
import Dialogue.Grammar.Nested

/-!
# Arithmetic

Sums of products of numbers, calls, variables and sums in parentheses. Operators of one
rank are applied from left to right. Variables and calls of the other categories are
here as well, because they are written alike.
-/

namespace Dialogue.Grammar

open Dialogue.Parser

/-- One of several spellings of an operator. -/
def spelled : List String → Rule String
  | [] => expected "operator"
  | [s] => symbol s
  | s :: rest => symbol s <|> spelled rest

/-- An operator in one of its spellings. -/
def operator {α : Type} (a : α) (spellings : List String) : Rule α := do
  let _ ← lexeme (spelled spellings)
  return a

/-- A sign that shows that an operand is a number. -/
def arithmeticSign : Rule Unit := operator () ["+", "-", "*", "/"]

/-- A variable of a category. -/
def variableOf (k : Category) : Rule (Expr k) := do
  let index ← position
  let name ← variableName
  record (·.useVariable index name k)
  return .variable name

/-- The arguments of a call, of the categories of the parameters that are left. A wrong
    number of them is fatal. -/
def arguments (inner : Nested) (wrongCount : Rule Unit) :
    (first : Bool) → List Category → Rule Args
  | _, [] => return .nil
  | first, k :: ks => do
    -- There are parameters left, so it would be too early to close the call.
    if ← wouldMatch (lexeme (char ')')) then wrongCount
    unless first do
      if (← optional (lexeme (char ','))).isNone then wrongCount
    let e ← inner.expr k
    let rest ← arguments inner wrongCount false ks
    return .cons e rest

/-- A call of a binding that returns a category. The binding must exist and take as many
    arguments, or the script makes no sense; if it returns another category, the rule
    just does not apply. -/
def call (registry : Registry) (inner : Nested) (k : Category) : Rule (Expr k) := do
  let index ← position
  let name ← unreserved
  let _ ← char '('
  match registry name with
  | none => fatalAt index (.unknownBinding name)
  | some s =>
    if s.result ≠ k then
      -- The rules for the other categories are tried at the name again.
      fun _ f => .miss index [k.name ++ " expression"] f
    else
      let wrongCount : Rule Unit := fatalAt index (.argumentCount name s.params.length)
      let args ← arguments inner wrongCount true s.params
      if (← optional (lexeme (char ')'))).isNone then wrongCount
      return .call name args

/-- A rule in parentheses. -/
def parenthesized {α : Type} (p : Rule α) : Rule α := do
  let _ ← lexeme (char '(')
  let a ← p
  let _ ← lexeme (char ')')
  return a

/-- An operand of a product. -/
def factor (registry : Registry) (inner : Nested) : Rule (Expr .number) :=
  parenthesized inner.sum
    <|> Expr.literal (k := .number) <$> lexeme number
    <|> lexeme (call registry inner .number)
    <|> lexeme (variableOf .number)

/-- Factors multiplied and divided. -/
def product (registry : Registry) (inner : Nested) : Rule (Expr .number) :=
  chainLeft (factor registry inner)
    (operator (.arith .multiply) ["*"] <|> operator (.arith .divide) ["/"])

/-- Products added and subtracted. -/
def sum (registry : Registry) (inner : Nested) : Rule (Expr .number) :=
  chainLeft (product registry inner)
    (operator (.arith .add) ["+"] <|> operator (.arith .subtract) ["-"])

end Dialogue.Grammar
