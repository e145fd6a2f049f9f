import Dialogue.Grammar.Quote

/-!
# Logic

From loosest to tightest: `or`, `xor`, `and`, then `not` and comparisons. Operators of
one rank are applied from left to right.

A comparison may be one of truth values, numbers or texts, and only what it holds tells
which. Two bare variables are compared whatever they are. Otherwise the operands are
read as truth values if they can be, then as numbers, then as texts.
-/

namespace Dialogue.Grammar

open Dialogue.Parser

/-- A comparison sign. -/
def compareSign : Rule CompareOp :=
  lexeme <|
    -- `is` is the start of `is not`, so the longer one is tried first.
    (do
      let _ ← keyword "is"
      let _ ← blanks1
      let _ ← keyword "not"
      return .isNot)
    <|> (fun _ => .isNot) <$> tag "!="
    <|> (fun _ => .is) <$> keyword "is"
    <|> (fun _ => .is) <$> tag "=="

/-- A truth value that stands alone: one in parentheses, written out, a call or a
    variable. -/
def boolean (registry : Registry) (inner : Nested) : Rule (Expr .boolean) :=
  parenthesized inner.disjunction
    <|> (fun _ => .literal true) <$> lexeme (keyword "true")
    <|> (fun _ => .literal false) <$> lexeme (keyword "false")
    <|> lexeme (call registry inner .boolean)
    <|> lexeme (variableOf .boolean)

/-- Two bare variables compared. They must have one category, whichever it is. -/
def variableComparison : Rule (Expr .boolean) := do
  let _ ← spaces
  let _ ← sameOrIndented
  let index ← position
  let l ← variableName
  let op ← compareSign
  let r ← lexeme variableName
  -- The second name may be the first operand of a sum, and then it is not bare.
  notFollowedBy arithmeticSign "end of comparison"
  record (·.linkVariables index l r)
  return .compareVariables op l r

/-- Two operands of one category compared. -/
def comparisonOf {k : Category} (p : Rule (Expr k)) : Rule (Expr .boolean) := do
  let l ← p
  let op ← compareSign
  let r ← p
  return .compare k op l r

/-- A comparison. -/
def comparison (registry : Registry) (inner : Nested) : Rule (Expr .boolean) :=
  variableComparison
    <|> comparisonOf (boolean registry inner)
    <|> comparisonOf (sum registry inner)
    <|> comparisonOf (operand registry inner)

/-- A truth value, or two of them compared, unless an arithmetic sign shows that the
    last operand was meant as a number. -/
def booleanReading (registry : Registry) (inner : Nested) : Rule (Option (Expr .boolean)) := do
  let unlessArithmetic (e : Expr .boolean) : Rule (Option (Expr .boolean)) := do
    return if ← wouldMatch arithmeticSign then none else some e
  match ← optional (boolean registry inner) with
  | none => return none
  | some l =>
    match ← optional compareSign with
    | none => unlessArithmetic l
    | some op =>
      match ← optional (boolean registry inner) with
      | none => return none
      | some r => unlessArithmetic (.compare .boolean op l r)

/-- The value that `p` answers, or else what `q` reads from where `p` started. -/
def insteadOf {α : Type} (p : Rule (Option α)) (q : Rule α) : Rule α := fun c f =>
  match p c f with
  | .ok (some a) c' f' => .ok a c' f'
  -- What `p` took and noted is given up.
  | .ok none _ _ => q c f
  | .miss i e f' => .miss i e f'
  | .fatal i r f' => .fatal i r f'

/-- A comparison or a truth value that stands alone. It is read as a truth value at most
    once, because what it holds may be read over and over otherwise. -/
def relation (registry : Registry) (inner : Nested) : Rule (Expr .boolean) :=
  insteadOf (optional variableComparison) <|
    insteadOf (booleanReading registry inner) <|
      comparisonOf (sum registry inner) <|> comparisonOf (operand registry inner)

/-- A negated truth value. -/
def negation (inner : Nested) : Rule (Expr .boolean) := do
  -- A comparison sign may start like the negation.
  let bang : Rule String := tag "!" <* notFollowedBy (char '=') "'!'"
  let _ ← lexeme (keyword "not" <|> bang)
  let e ← inner.unary
  return .not e

/-- A truth value that may be negated. -/
def unary (registry : Registry) (inner : Nested) : Rule (Expr .boolean) :=
  negation inner <|> relation registry inner

/-- Truth values joined by `and`. -/
def conjunction (registry : Registry) (inner : Nested) : Rule (Expr .boolean) :=
  chainLeft (unary registry inner) (operator (.logic .and) ["and", "&&"])

/-- Truth values joined by `xor`. -/
def exclusive (registry : Registry) (inner : Nested) : Rule (Expr .boolean) :=
  chainLeft (conjunction registry inner) (operator (.logic .xor) ["xor", "^"])

/-- Truth values joined by `or`. -/
def disjunction (registry : Registry) (inner : Nested) : Rule (Expr .boolean) :=
  chainLeft (exclusive registry inner) (operator (.logic .or) ["or", "||"])

end Dialogue.Grammar
