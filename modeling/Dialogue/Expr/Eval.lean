import Dialogue.Binding
import Dialogue.Expr
import Dialogue.Scope

/-!
# The value of an expression

Operands are evaluated from left to right, and the first error is the error of the
whole. `and` and `or` leave their right operand alone where the left one decides.
-/

namespace Dialogue

/-- The value of a variable. -/
def Scope.value (s : Scope) (name : String) : Except EvalError Value :=
  match s.get? name with
  | some v => .ok v
  | none => .error (.undefined name)

/-- The value of `name` as one of a category. -/
def Value.expect (k : Category) (name : String) (v : Value) : Except EvalError k.Carrier :=
  match v.as? k with
  | some a => .ok a
  | none => .error (.mismatch name k v.category)

variable [Arithmetic]

mutual

/-- The value of an expression. -/
def Expr.eval (s : Scope) (bs : Bindings) : {k : Category} → Expr k → Except EvalError k.Carrier
  | _, .literal v => .ok v
  | k, .variable name => do (← s.value name).expect k name
  | k, .call name args => do
    let vs ← args.eval s bs
    (← bs.call name vs).expect k name
  | _, .not e => do
    let b ← e.eval s bs
    return !b
  | _, .logic op l r => do
    let a ← l.eval s bs
    match op, a with
    -- Here the right operand is not evaluated, so it cannot fail either.
    | .and, false => return false
    | .or, true => return true
    | op, a =>
      let b ← r.eval s bs
      return op.apply a b
  | _, .compare k op l r => do
    let a ← l.eval s bs
    let b ← r.eval s bs
    return op.apply (k.equal a b)
  | _, .compareVariables op l r => do
    let a ← s.value l
    let b ← s.value r
    if a.category = b.category then return op.apply (a = b)
    else .error (.mismatch r a.category b.category)
  | _, .arith op l r => do
    let a ← l.eval s bs
    let b ← r.eval s bs
    return op.apply a b
  | _, .concat l r => do
    let a ← l.eval s bs
    let b ← r.eval s bs
    return a ++ b
  | _, .ofNumber e => do
    let a ← e.eval s bs
    return Category.number.textOf a
  | _, .ofBoolean e => do
    let a ← e.eval s bs
    return Category.boolean.textOf a
  | _, .interpolate name => do return (← s.value name).display

/-- The values of arguments. -/
def Args.eval (s : Scope) (bs : Bindings) : Args → Except EvalError (List Value)
  | .nil => .ok []
  | .cons (k := k) e rest => do
    let v ← e.eval s bs
    let vs ← rest.eval s bs
    return Value.of k v :: vs

end

end Dialogue
