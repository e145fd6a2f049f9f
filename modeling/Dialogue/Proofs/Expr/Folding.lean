import Dialogue.Expr.Eval
import Dialogue.Expr.Simplify

/-!
# Simplification and evaluation

Simplification carries out operations on literals by the functions that evaluation uses,
so an operation that is carried out has the value it would have had (`eval_foldOne`,
`eval_foldTwo`). The operands of `and` and `or` are only folded together, hence an
operand that fails is never dropped.

A concatenation is taken apart into the list of its parts and put together again. What
evaluation makes of such a list (`evalParts`) is one text after another, up to the first
error, and this is a monoid (`andThen`): grouping does not matter, and an empty literal
is neutral.

* `Expr.eval_simplify`, `Args.eval_simplify`: simplification keeps values and errors;
* `simplify_keeps_value`: both of them in one statement, for every arithmetic.
-/

namespace Dialogue

/-! ## Texts one after another -/

/-- One text after another, or the first error. -/
def andThen (x y : Except EvalError String) : Except EvalError String := do
  let a ← x
  let b ← y
  return a ++ b

/-- Texts may be grouped in any way. -/
theorem andThen_assoc (x y z : Except EvalError String) :
    andThen (andThen x y) z = andThen x (andThen y z) := by
  cases x with
  | error _ => rfl
  | ok a =>
    cases y with
    | error _ => rfl
    | ok b =>
      cases z with
      | error _ => rfl
      | ok c => exact congrArg Except.ok (String.append_assoc ..)

/-- An empty text in front adds nothing. -/
@[simp] theorem ok_empty_andThen (x : Except EvalError String) : andThen (.ok "") x = x := by
  cases x with
  | error _ => rfl
  | ok a => exact congrArg Except.ok String.empty_append

/-- An empty text at the end adds nothing. -/
@[simp] theorem andThen_ok_empty (x : Except EvalError String) : andThen x (.ok "") = x := by
  cases x with
  | error _ => rfl
  | ok a => exact congrArg Except.ok String.append_empty

namespace Expr

variable [Arithmetic] {s : Scope} {bs : Bindings}

/-- A literal has its value. -/
theorem eval_literal {k : Category} (v : k.Carrier) : (literal v).eval s bs = .ok v := by
  rw [eval]

/-- A concatenation has the one text and then the other. -/
theorem eval_concat (l r : Expr .text) :
    (concat l r).eval s bs = andThen (l.eval s bs) (r.eval s bs) := by
  rw [eval, andThen]

/-- The text of parts, one after another. -/
def evalParts (s : Scope) (bs : Bindings) : List (Expr .text) → Except EvalError String
  | [] => .ok ""
  | e :: rest => andThen (e.eval s bs) (evalParts s bs rest)

/-- The parts of a text have its value. -/
theorem evalParts_parts (e : Expr .text) (rest : List (Expr .text)) :
    evalParts s bs (e.parts rest) = andThen (e.eval s bs) (evalParts s bs rest) := by
  match e with
  | .concat l r =>
    rw [parts, evalParts_parts l, evalParts_parts r, eval_concat, andThen_assoc]
  | .literal _ | .variable _ | .call _ _ | .ofNumber _ | .ofBoolean _ | .interpolate _ =>
    rfl

/-- Dropping an empty literal and joining two literals do not change the text. -/
theorem evalParts_glue (e : Expr .text) (rest : List (Expr .text)) :
    evalParts s bs (glue e rest) = andThen (e.eval s bs) (evalParts s bs rest) := by
  rw [glue]
  split
  · rfl
  · rename_i t ht
    rw [eq_literal_of_literal? ht]
    split
    · rename_i hempty
      rw [hempty, eval_literal, ok_empty_andThen]
    · split
      · rw [evalParts, evalParts, ← andThen_assoc, eval_literal, eval_literal, eval_literal]
        rfl
      · rw [evalParts]

/-- Gluing keeps the value. -/
theorem evalParts_foldr_glue (es : List (Expr .text)) :
    evalParts s bs (es.foldr glue []) = evalParts s bs es := by
  induction es with
  | nil => rfl
  | cons e es ih => rw [List.foldr_cons, evalParts_glue, ih, evalParts]

/-- A chain has the values of its operands in a row. -/
theorem eval_foldl_concat (e : Expr .text) (es : List (Expr .text)) :
    (es.foldl concat e).eval s bs = andThen (e.eval s bs) (evalParts s bs es) := by
  induction es generalizing e with
  | nil => rw [List.foldl_nil, evalParts, andThen_ok_empty]
  | cons d es ih => rw [List.foldl_cons, ih, eval_concat, andThen_assoc, evalParts]

/-- The chain of a list has the values of its parts in a row. -/
theorem eval_chain (es : List (Expr .text)) : (chain es).eval s bs = evalParts s bs es := by
  cases es with
  | nil => exact eval_literal _
  | cons e es => exact eval_foldl_concat e es

/-- A normalised concatenation is the concatenation. -/
theorem eval_join (l r : Expr .text) :
    (join l r).eval s bs = andThen (l.eval s bs) (r.eval s bs) := by
  rw [join, eval_chain, evalParts_foldr_glue, evalParts_parts, evalParts_parts, evalParts,
    andThen_ok_empty]

/-! ## Operations that are carried out -/

/-- Folding an operand keeps the value, if `f` says what `build` makes of a literal. -/
theorem eval_foldOne {j k : Category} {f : j.Carrier → k.Carrier} {build : Expr j → Expr k}
    (h : ∀ v, (build (literal v)).eval s bs = .ok (f v)) (e : Expr j) :
    (foldOne f build e).eval s bs = (build e).eval s bs := by
  rcases foldOne_cases f build e with ⟨v, rfl, hv⟩ | hb
  · rw [hv, eval_literal, h]
  · rw [hb]

/-- Folding two operands keeps the value, if `f` says what `build` makes of literals. -/
theorem eval_foldTwo {j k : Category} {f : j.Carrier → j.Carrier → k.Carrier}
    {build : Expr j → Expr j → Expr k}
    (h : ∀ v w, (build (literal v) (literal w)).eval s bs = .ok (f v w)) (l r : Expr j) :
    (foldTwo f build l r).eval s bs = (build l r).eval s bs := by
  rcases foldTwo_cases f build l r with ⟨v, w, rfl, rfl, hvw⟩ | hb
  · rw [hvw, eval_literal, h]
  · rw [hb]

/-- Logic on literals is carried out. -/
theorem eval_logic_literal (op : LogicOp) (a b : Bool) :
    (logic op (literal a) (literal b)).eval s bs = .ok (op.apply a b) := by
  simp only [eval]
  cases op <;> cases a <;> rfl

end Expr

/-! ## Simplification -/

variable [Arithmetic] {s : Scope} {bs : Bindings}

mutual

/-- A simplified expression has the value, or the error, of the expression. -/
theorem Expr.eval_simplify : {k : Category} → (e : Expr k) →
    e.simplify.eval s bs = e.eval s bs
  | _, .literal _ => by rw [Expr.simplify]
  | _, .variable _ => by rw [Expr.simplify]
  | _, .call _ args => by rw [Expr.simplify, Expr.eval, Expr.eval, Args.eval_simplify args]
  | _, .not e => by
    rw [Expr.simplify, Expr.eval_foldOne fun v => by simp only [Expr.eval]; rfl, Expr.eval,
      Expr.eval, Expr.eval_simplify e]
  | _, .logic op l r => by
    rw [Expr.simplify, Expr.eval_foldTwo (Expr.eval_logic_literal op), Expr.eval, Expr.eval,
      Expr.eval_simplify l, Expr.eval_simplify r]
  | _, .compare k op l r => by
    rw [Expr.simplify, Expr.eval_foldTwo fun v w => by simp only [Expr.eval]; rfl, Expr.eval,
      Expr.eval, Expr.eval_simplify l, Expr.eval_simplify r]
  | _, .compareVariables _ _ _ => by rw [Expr.simplify]
  | _, .arith op l r => by
    rw [Expr.simplify, Expr.eval_foldTwo fun v w => by simp only [Expr.eval]; rfl, Expr.eval,
      Expr.eval, Expr.eval_simplify l, Expr.eval_simplify r]
  | _, .concat l r => by
    rw [Expr.simplify, Expr.eval_join, Expr.eval_concat, Expr.eval_simplify l, Expr.eval_simplify r]
  | _, .ofNumber e => by
    rw [Expr.simplify, Expr.eval_foldOne fun v => by simp only [Expr.eval]; rfl, Expr.eval,
      Expr.eval, Expr.eval_simplify e]
  | _, .ofBoolean e => by
    rw [Expr.simplify, Expr.eval_foldOne fun v => by simp only [Expr.eval]; rfl, Expr.eval,
      Expr.eval, Expr.eval_simplify e]
  | _, .interpolate _ => by rw [Expr.simplify]

/-- Simplified arguments have the values, or the first error, of the arguments. -/
theorem Args.eval_simplify : (args : Args) → args.simplify.eval s bs = args.eval s bs
  | .nil => by rw [Args.simplify]
  | .cons e rest => by
    rw [Args.simplify, Args.eval, Args.eval, Expr.eval_simplify e, Args.eval_simplify rest]

end

/-- Whatever arithmetic evaluation and folding share, a simplified expression has the same
    value as the expression, or fails with the same error, and so do the arguments of a
    call. -/
theorem simplify_keeps_value {k : Category} (e : Expr k) (args : Args) (s : Scope)
    (bs : Bindings) :
    e.simplify.eval s bs = e.eval s bs ∧ args.simplify.eval s bs = args.eval s bs :=
  ⟨e.eval_simplify, args.eval_simplify⟩

end Dialogue
