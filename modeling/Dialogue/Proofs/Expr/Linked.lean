import Mathlib
import Dialogue.Expr.Eval

/-!
# Variables compared by name

A comparison of two bare variables compares what they hold, whatever it is; a comparison of two
operands of a category compares values of that category. The two agree on variables that hold truth
values, texts or unambiguous numbers, and on no others (`compareVariables_eval`): what is held is
compared as it is stored, and operands are compared by the rules of floating-point arithmetic, where
not-a-number differs from itself and the two zeros are equal.
-/

namespace Dialogue

variable {s : Scope} {bs : Bindings} {k : Category}

/-- Numbers that are compared in two ways: not-a-number with itself, and the two zeros. -/
def Number.Ambiguous (x y : Float) : Prop :=
  x = .nan ∧ y = .nan ∨ x = 0 ∧ y = -0 ∨ x = -0 ∧ y = 0

/-- Values that are compared in two ways. Only numbers are. -/
def Value.Ambiguous : Value → Value → Prop
  | number x, number y => Number.Ambiguous x y
  | _, _ => False

/-- Arithmetic finds the numbers equal that are the same, unless they are ambiguous. -/
theorem Number.beq_eq_decide_iff {x y : Float} : (x == y) = decide (x = y) ↔ ¬ Ambiguous x y := by
  have hzero : (0 : Float) ≠ -0 := by decide
  have hnan : (0 : Float) ≠ .nan ∧ (-0 : Float) ≠ .nan := ⟨by decide, by decide⟩
  rw [Bool.eq_iff_iff, Float.beq_iff_ne_nan_and_eq, decide_eq_true_iff, Ambiguous]
  grind

/-- Values of one category are told by what they hold. -/
theorem Value.of_inj {a b : k.Carrier} : Value.of k a = .of k b ↔ a = b := by
  refine ⟨fun h => ?_, congrArg _⟩
  have has := congrArg (as? k) h
  rw [as?_of, as?_of] at has
  exact Option.some.inj has

/-- A script finds the values of a category equal that are the same, unless they are ambiguous. -/
theorem Category.equal_eq_decide_iff {a b : k.Carrier} :
    k.equal a b = decide (Value.of k a = .of k b) ↔ ¬ Value.Ambiguous (.of k a) (.of k b) := by
  have hof : a = b ↔ Value.of k a = .of k b := Value.of_inj.symm
  cases k with
  | boolean => exact iff_of_true ((beq_eq_decide a b).trans (decide_eq_decide.2 hof)) id
  | number =>
    rw [← decide_eq_decide.2 hof]
    exact Number.beq_eq_decide_iff
  | text => exact iff_of_true ((beq_eq_decide a b).trans (decide_eq_decide.2 hof)) id

/-- A comparison is told by how its operands compare. -/
theorem CompareOp.apply_inj (op : CompareOp) {a b : Bool} : op.apply a = op.apply b ↔ a = b := by
  cases op with
  | is => rfl
  | isNot => exact Bool.not_inj_iff

/-- A variable that a scope has is had from it. -/
theorem Scope.value_of_get? {name : String} {v : Value} (h : s.get? name = some v) :
    s.value name = .ok v := by
  rw [value, h]

/-- A variable that holds a value of a category has it as an operand of that category. -/
theorem Expr.eval_variable {name : String} {a : k.Carrier} (h : s.get? name = some (.of k a)) :
    (Expr.variable name : Expr k).eval s bs = .ok a := by
  rw [eval, Scope.value_of_get? h]
  show (Value.of k a).expect k name = .ok a
  rw [Value.expect, Value.as?_of]

/-- Where two variables hold values of one category, comparing them by name and comparing them as
    operands of that category both have a result. It is the same result, whatever the operator,
    unless the variables hold ambiguous numbers, and then it never is. -/
theorem compareVariables_eval (op : CompareOp) {l r : String} {a b : Value}
    (hl : s.get? l = some a) (hr : s.get? r = some b) (ha : a.category = k) (hb : b.category = k) :
    ∃ linked typed, (Expr.compareVariables op l r).eval s bs = .ok linked ∧
      (Expr.compare k op (.variable l) (.variable r)).eval s bs = .ok typed ∧
      (linked = typed ↔ ¬ a.Ambiguous b) := by
  obtain ⟨x, rfl⟩ : ∃ x, a = .of k x := by
    cases ha
    cases a <;> exact ⟨_, rfl⟩
  obtain ⟨y, rfl⟩ : ∃ y, b = .of k y := by
    cases hb
    cases b <;> exact ⟨_, rfl⟩
  refine ⟨op.apply (decide (Value.of k x = .of k y)), op.apply (k.equal x y), ?_, ?_, ?_⟩
  · rw [Expr.eval, Scope.value_of_get? hl, Scope.value_of_get? hr]
    exact if_pos (ha.trans hb.symm)
  · rw [Expr.eval, Expr.eval_variable hl, Expr.eval_variable hr]
    rfl
  · rw [op.apply_inj, eq_comm, Category.equal_eq_decide_iff]

/-- Two variables that hold the two zeros. -/
def zeros : Scope := .ofList [("a", .number 0), ("b", .number (-0))]

/-- The two zeros are told apart only where they are compared by name. -/
theorem compareVariables_eval_zeros :
    zeros.get? "a" = some (.number 0) ∧ zeros.get? "b" = some (.number (-0)) ∧
      ∃ linked typed, (Expr.compareVariables .is "a" "b").eval zeros .empty = .ok linked ∧
        (Expr.compare .number .is (.variable "a") (.variable "b")).eval zeros .empty = .ok typed ∧
        (linked = typed ↔ ¬ Value.Ambiguous (.number 0) (.number (-0))) :=
  have ha : zeros.get? "a" = some (.number 0) := by decide +kernel
  have hb : zeros.get? "b" = some (.number (-0)) := by decide +kernel
  ⟨ha, hb, compareVariables_eval .is ha hb rfl rfl⟩

/-- So a comparison depends on whether it was typed. -/
theorem compareVariables_ne_compare :
    ¬ ∀ (s : Scope) (bs : Bindings) (op : CompareOp) (k : Category) (l r : String) (a b : Value),
      s.get? l = some a → s.get? r = some b → a.category = k → b.category = k →
      (Expr.compareVariables op l r).eval s bs =
        (Expr.compare k op (.variable l) (.variable r)).eval s bs := by
  intro hall
  have heq := hall zeros .empty .is .number "a" "b" (.number 0) (.number (-0)) (by decide +kernel)
    (by decide +kernel) rfl rfl
  have hlinked : ((Expr.compareVariables .is "a" "b").eval zeros .empty).toOption =
      some false := by
    decide +kernel
  have htyped : ((Expr.compare .number .is (.variable "a") (.variable "b")).eval zeros
      .empty).toOption = some true := by
    decide +kernel
  rw [heq, htyped] at hlinked
  cases hlinked

end Dialogue
