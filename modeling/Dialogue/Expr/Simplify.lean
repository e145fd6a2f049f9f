import Dialogue.Expr

/-!
# Simplification

Operations on literals are carried out. A concatenation becomes one chain that leans to
the left, in which no literal is empty and no two literals are neighbours; so a text
that is broken over several lines has the same form as on one line.
-/

namespace Dialogue

namespace Expr

/-- Carries out an operation on one operand if it is a literal. -/
def foldOne {j k : Category} (f : j.Carrier → k.Carrier) (build : Expr j → Expr k)
    (e : Expr j) : Expr k :=
  match e.literal? with
  | some v => literal (f v)
  | none => build e

/-- Carries out an operation on two operands if both are literals. -/
def foldTwo {j k : Category} (f : j.Carrier → j.Carrier → k.Carrier)
    (build : Expr j → Expr j → Expr k) (l r : Expr j) : Expr k :=
  match l.literal?, r.literal? with
  | some a, some b => literal (f a b)
  | _, _ => build l r

/-- An operation is carried out if its operand is a literal, and else left as it is. -/
theorem foldOne_cases {j k : Category} (f : j.Carrier → k.Carrier) (build : Expr j → Expr k)
    (e : Expr j) :
    (∃ v, e = literal v ∧ foldOne f build e = literal (f v)) ∨ foldOne f build e = build e := by
  unfold foldOne
  split
  · rename_i v hv
    exact .inl ⟨v, eq_literal_of_literal? hv, rfl⟩
  · exact .inr rfl

/-- An operation is carried out if both of its operands are literals, and else left as it is. -/
theorem foldTwo_cases {j k : Category} (f : j.Carrier → j.Carrier → k.Carrier)
    (build : Expr j → Expr j → Expr k) (l r : Expr j) :
    (∃ v w, l = literal v ∧ r = literal w ∧ foldTwo f build l r = literal (f v w)) ∨
      foldTwo f build l r = build l r := by
  unfold foldTwo
  split
  · rename_i v w hv hw
    exact .inl ⟨v, w, eq_literal_of_literal? hv, eq_literal_of_literal? hw, rfl⟩
  · exact .inr rfl

/-- The parts that an expression is a concatenation of, from left to right, before
    `rest`. -/
def parts : {k : Category} → Expr k → (rest : List (Expr k)) → List (Expr k)
  | .text, concat l r, rest => l.parts (r.parts rest)
  | _, e, rest => e :: rest

/-- Puts a part before others, dropping an empty literal and joining neighbouring ones. -/
def glue (e : Expr .text) (rest : List (Expr .text)) : List (Expr .text) :=
  match e.literal? with
  | none => e :: rest
  | some s =>
    if s = "" then rest
    else match rest with
      | literal t :: rest => literal (s ++ t) :: rest
      | rest => e :: rest

/-- The concatenation of parts, leaning to the left. -/
def chain : List (Expr .text) → Expr .text
  | [] => literal (k := .text) ""
  | e :: rest => rest.foldl concat e

/-- The concatenation of two simplified texts. -/
def join (l r : Expr .text) : Expr .text := chain ((l.parts (r.parts [])).foldr glue [])

end Expr

variable [Arithmetic]

mutual

/-- Carries out what can be carried out without variables and calls. -/
def Expr.simplify : {k : Category} → Expr k → Expr k
  | _, .literal v => .literal v
  | _, .variable name => .variable name
  | _, .call name args => .call name args.simplify
  | _, .not e => Expr.foldOne (fun b => !b) .not e.simplify
  | _, .logic op l r => Expr.foldTwo op.apply (.logic op) l.simplify r.simplify
  | _, .compare k op l r =>
    Expr.foldTwo (fun a b => op.apply (k.equal a b)) (.compare k op) l.simplify r.simplify
  | _, .compareVariables op l r => .compareVariables op l r
  | _, .arith op l r => Expr.foldTwo op.apply (.arith op) l.simplify r.simplify
  | _, .concat l r => Expr.join l.simplify r.simplify
  | _, .ofNumber e => Expr.foldOne Category.number.textOf .ofNumber e.simplify
  | _, .ofBoolean e => Expr.foldOne Category.boolean.textOf .ofBoolean e.simplify
  | _, .interpolate name => .interpolate name

/-- Simplifies every argument. -/
def Args.simplify : Args → Args
  | .nil => .nil
  | .cons e rest => .cons e.simplify rest.simplify

end

end Dialogue
