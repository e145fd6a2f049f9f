import Dialogue.Number.Text

/-!
# Values

A value is a truth value, a number or a text. Its *category* says which of them it is;
variables, bindings and expressions have a category as well.

What the operators on numbers, their equality and their text are is an `Arithmetic`. A
story runs on floating-point arithmetic, but simplification and evaluation only need
that they share one.
-/

namespace Dialogue

/-- How numbers are reckoned with, compared and written. -/
class Arithmetic where
  /-- Sum. -/
  add : Float → Float → Float
  /-- Difference. -/
  subtract : Float → Float → Float
  /-- Product. -/
  multiply : Float → Float → Float
  /-- Quotient. -/
  divide : Float → Float → Float
  /-- Are two numbers equal where a script compares them? -/
  equal : Float → Float → Bool
  /-- The text of a number. -/
  text : Float → String

/-- Floating-point arithmetic. Not-a-number differs from itself, and the two zeros are
    equal. -/
instance Arithmetic.floatingPoint : Arithmetic where
  add a b := a + b
  subtract a b := a - b
  multiply a b := a * b
  divide a b := a / b
  equal a b := a == b
  text := Number.text

/-- What kind of value something is. -/
inductive Category where
  /-- Truth values. -/
  | boolean
  /-- Numbers. -/
  | number
  /-- Texts. -/
  | text
  deriving DecidableEq

namespace Category

/-- The name of a category in messages. -/
def name : Category → String
  | boolean => "boolean"
  | number => "number"
  | text => "string"

/-- The values of a category. -/
abbrev Carrier : Category → Type
  | boolean => Bool
  | number => Float
  | text => String

variable [Arithmetic]

/-- Are two values of a category equal where a script compares them? -/
def equal : (k : Category) → k.Carrier → k.Carrier → Bool
  | boolean, a, b => a == b
  | number, a, b => Arithmetic.equal a b
  | text, a, b => a == b

/-- The text of a value of a category. -/
def textOf : (k : Category) → k.Carrier → String
  | boolean, b => if b then "true" else "false"
  | number, x => Arithmetic.text x
  | text, s => s

end Category

/-- A truth value, a number or a text. Equality tells the two zeros apart. -/
inductive Value where
  /-- A truth value. -/
  | boolean (b : Bool)
  /-- A number. -/
  | number (x : Float)
  /-- A text. -/
  | text (s : String)
  deriving DecidableEq

namespace Value

/-- The category of a value. -/
def category : Value → Category
  | boolean _ => .boolean
  | number _ => .number
  | text _ => .text

/-- A value of a known category. -/
def of : (k : Category) → k.Carrier → Value
  | .boolean, b => boolean b
  | .number, x => number x
  | .text, s => text s

/-- The value, if it has the category. -/
def as? : (k : Category) → Value → Option k.Carrier
  | .boolean, boolean b => some b
  | .number, number x => some x
  | .text, text s => some s
  | _, _ => none

/-- The text of a value. -/
def display [Arithmetic] : Value → String
  | boolean b => Category.boolean.textOf b
  | number x => Category.number.textOf x
  | text s => s

/-- A value has the category that it was made in. -/
@[simp] theorem category_of (k : Category) (v : k.Carrier) : (of k v).category = k := by
  cases k <;> rfl

/-- A value is had back in its category. -/
@[simp] theorem as?_of (k : Category) (v : k.Carrier) : (of k v).as? k = some v := by
  cases k <;> rfl

/-- A value is shown by its text. -/
@[simp] theorem display_of [Arithmetic] (k : Category) (v : k.Carrier) :
    (of k v).display = k.textOf v := by
  cases k <;> rfl

/-- A value is not had in any other category. -/
theorem as?_eq_none_iff {k : Category} {a : Value} : a.as? k = none ↔ a.category ≠ k := by
  cases k <;> cases a <;> simp [as?, category]

end Value

end Dialogue
