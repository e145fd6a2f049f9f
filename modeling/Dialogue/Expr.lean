import Dialogue.Value

/-!
# Expressions

An expression stands for a value of a category that is known from its form, so no
expression is ill-typed. Only variables and calls can turn out to hold something else.

Comparisons join two operands of one category. Two variables may also be compared when
neither says what category it has; what they hold decides then.
-/

namespace Dialogue

/-- The operators on numbers. -/
inductive ArithOp where
  /-- Sum. -/
  | add
  /-- Difference. -/
  | subtract
  /-- Product. -/
  | multiply
  /-- Quotient. -/
  | divide
  deriving DecidableEq

namespace ArithOp

/-- The result of an operator. -/
def apply [Arithmetic] : ArithOp → Float → Float → Float
  | add, a, b => Arithmetic.add a b
  | subtract, a, b => Arithmetic.subtract a b
  | multiply, a, b => Arithmetic.multiply a b
  | divide, a, b => Arithmetic.divide a b

/-- The sign of an operator. -/
def sign : ArithOp → String
  | add => "+"
  | subtract => "-"
  | multiply => "*"
  | divide => "/"

end ArithOp

/-- The operators on truth values. -/
inductive LogicOp where
  /-- Both. -/
  | and
  /-- At least one. -/
  | or
  /-- Exactly one. -/
  | xor
  deriving DecidableEq

namespace LogicOp

/-- The result of an operator. -/
def apply : LogicOp → Bool → Bool → Bool
  | and, a, b => a && b
  | or, a, b => a || b
  | xor, a, b => a ^^ b

/-- The word for an operator. -/
def word : LogicOp → String
  | and => "and"
  | or => "or"
  | xor => "xor"

end LogicOp

/-- The two comparisons. -/
inductive CompareOp where
  /-- The operands are equal. -/
  | is
  /-- The operands differ. -/
  | isNot
  deriving DecidableEq

namespace CompareOp

/-- The result of a comparison, given whether the operands are equal. -/
def apply : CompareOp → Bool → Bool
  | is, same => same
  | isNot, same => !same

/-- The words for a comparison. -/
def word : CompareOp → String
  | is => "is"
  | isNot => "is not"

end CompareOp

mutual

/-- An expression for a value of a category. -/
inductive Expr : Category → Type where
  /-- A value that is written out. -/
  | literal {k : Category} (v : k.Carrier) : Expr k
  /-- A variable that must hold a value of the category. -/
  | variable {k : Category} (name : String) : Expr k
  /-- A call that must return a value of the category. -/
  | call {k : Category} (name : String) (args : Args) : Expr k
  /-- Negation. -/
  | not (e : Expr .boolean) : Expr .boolean
  /-- Two truth values joined. -/
  | logic (op : LogicOp) (l r : Expr .boolean) : Expr .boolean
  /-- Two operands of one category compared. -/
  | compare (k : Category) (op : CompareOp) (l r : Expr k) : Expr .boolean
  /-- Two variables of one category, whichever it is, compared. -/
  | compareVariables (op : CompareOp) (l r : String) : Expr .boolean
  /-- Two numbers joined. -/
  | arith (op : ArithOp) (l r : Expr .number) : Expr .number
  /-- One text after another. -/
  | concat (l r : Expr .text) : Expr .text
  /-- The text of a number. -/
  | ofNumber (e : Expr .number) : Expr .text
  /-- The text of a truth value. -/
  | ofBoolean (e : Expr .boolean) : Expr .text
  /-- The text of a variable, whatever it holds. -/
  | interpolate (name : String) : Expr .text

/-- The arguments of a call, each of a category of its own. -/
inductive Args : Type where
  /-- No more arguments. -/
  | nil
  /-- An argument before others. -/
  | cons {k : Category} (e : Expr k) (rest : Args)

end

namespace Expr

/-- The value, if it is written out. -/
def literal? {k : Category} : Expr k → Option k.Carrier
  | literal v => some v
  | _ => none

/-- Is it written out? -/
def isLiteral {k : Category} (e : Expr k) : Bool := e.literal?.isSome

/-- An expression that is written out is a literal of its value. -/
theorem eq_literal_of_literal? {k : Category} {e : Expr k} {v : k.Carrier}
    (h : e.literal? = some v) : e = literal v := by
  cases e <;> simp_all [literal?]

end Expr

mutual

/-- Are two expressions the same, literals compared as values? -/
def Expr.same : {j k : Category} → Expr j → Expr k → Bool
  | j, k, .literal v, .literal w => Value.of j v = Value.of k w
  | j, k, .variable m, .variable n => j = k && m = n
  | j, k, .call m as, .call n bs => j = k && m = n && as.same bs
  | _, _, .not d, .not e => d.same e
  | _, _, .logic o l r, .logic o' l' r' => o = o' && l.same l' && r.same r'
  | _, _, .compare k o l r, .compare k' o' l' r' => k = k' && o = o' && l.same l' && r.same r'
  | _, _, .compareVariables o l r, .compareVariables o' l' r' => o = o' && l = l' && r = r'
  | _, _, .arith o l r, .arith o' l' r' => o = o' && l.same l' && r.same r'
  | _, _, .concat l r, .concat l' r' => l.same l' && r.same r'
  | _, _, .ofNumber d, .ofNumber e => d.same e
  | _, _, .ofBoolean d, .ofBoolean e => d.same e
  | _, _, .interpolate m, .interpolate n => m = n
  | _, _, _, _ => false

/-- Are two lists of arguments the same? -/
def Args.same : Args → Args → Bool
  | .nil, .nil => true
  | .cons d ds, .cons e es => d.same e && ds.same es
  | _, _ => false

end

end Dialogue
