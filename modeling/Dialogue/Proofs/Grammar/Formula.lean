import Dialogue.Proofs.Grammar.Token

/-!
# Written formulas

How a formula of truth values, names and comparisons of numbers is *written*: what white space is
before each of its tokens, how its operators and signs are spelled, and where it has parentheses.
From this follow its text (`Formula.text`), the expression (`Formula.expr`), and the uses of
variables with their offsets (`Formula.uses`). Which comparisons are of numbers can be told because
one of the operands has a decimal in it.

A written formula has *enough* parentheses if every operand binds at least as tight as its place
asks for (`Formula.Enough`). Its words are *apart* if no word is next to a character of a name, for
they would be one name together (`Formula.Apart`).
-/

namespace Dialogue

/-- Is there a decimal in the expression? -/
def Written.hasNumeral : Written → Bool
  | numeral _ _ => true
  | name _ _ => false
  | arith _ l _ r => l.hasNumeral || r.hasNumeral
  | parens _ e _ => e.hasNumeral

/-- A comparison sign as it is written. -/
inductive CompareSign where
  /-- The word. -/
  | is
  /-- Two characters for equality. -/
  | equal
  /-- Two words on one line. -/
  | isNot (blanks : List Char) (nonempty : blanks ≠ []) (blank : ∀ x ∈ blanks, Text.isBlank x)
  /-- Two characters for the opposite. -/
  | unequal

namespace CompareSign

/-- The characters of the sign. -/
def chars : CompareSign → List Char
  | is => "is".toList
  | equal => "==".toList
  | isNot blanks _ _ => "is".toList ++ blanks ++ "not".toList
  | unequal => "!=".toList

/-- The comparison that the sign stands for. -/
def op : CompareSign → CompareOp
  | is | equal => .is
  | isNot _ _ _ | unequal => .isNot

end CompareSign

/-- The spellings of an operator. -/
def LogicOp.spellings : LogicOp → List String
  | and => ["and", "&&"]
  | xor => ["xor", "^"]
  | or => ["or", "||"]

/-- How tight an operator binds. -/
def LogicOp.rank : LogicOp → Nat
  | or => 0
  | xor => 1
  | and => 2

/-- Operators of logic are told by their ranks. -/
theorem LogicOp.rank_injective {op op' : LogicOp} (h : op.rank = op'.rank) : op = op' := by
  cases op <;> cases op' <;> first | rfl | cases h

/-- There are three ranks of operators of logic. -/
theorem LogicOp.rank_lt (op : LogicOp) : op.rank < 3 := by cases op <;> decide

/-- The word for a truth value. -/
abbrev truthWord (b : Bool) : String := if b then "true" else "false"

/-- The spellings of a negation. -/
def negations : List String := ["not", "!"]

/-- A formula as it is written. -/
inductive Formula where
  /-- A truth value. -/
  | truth (gap : Gap) (b : Bool)
  /-- A variable. -/
  | name (gap : Gap) (n : Name)
  /-- Two numbers compared. -/
  | compare (l : Written) (gap : Gap) (sign : CompareSign) (r : Written)
    (numeric : l.hasNumeral || r.hasNumeral)
  /-- A negation. -/
  | not (gap : Gap) (word : { w // w ∈ negations }) (e : Formula)
  /-- Two operands with an operator between them. -/
  | logic (op : LogicOp) (l : Formula) (gap : Gap) (word : { w // w ∈ op.spellings }) (r : Formula)
  /-- A formula in parentheses. -/
  | parens (gap : Gap) (e : Formula) (gap' : Gap)

namespace Formula

/-- The text. -/
def text : Formula → List Char
  | truth gap b => gap.1 ++ (truthWord b).toList
  | name gap n => gap.1 ++ n.chars
  | compare l gap sign r _ => l.text ++ (gap.1 ++ sign.chars) ++ r.text
  | not gap word e => (gap.1 ++ word.1.toList) ++ e.text
  | logic _ l gap word r => l.text ++ (gap.1 ++ word.1.toList) ++ r.text
  | parens gap e gap' => gap.1 ++ ['('] ++ e.text ++ gap'.1 ++ [')']

/-- The expression that is written. -/
def expr : Formula → Expr .boolean
  | truth _ b => .literal (k := .boolean) b
  | name _ n => .variable (String.ofList n.chars)
  | compare l _ sign r _ => .compare .number sign.op l.expr r.expr
  | not _ _ e => .not e.expr
  | logic op l _ _ r => .logic op l.expr r.expr
  | parens _ e _ => e.expr

/-- The uses of its variables, from left to right, of a text at an offset. -/
def uses (index : Nat) : Formula → List (Found Use)
  | truth _ _ => []
  | name gap n => [⟨index + byteSize gap.1, .typed (String.ofList n.chars) .boolean⟩]
  | compare l gap sign r _ =>
    l.uses index ++ r.uses (index + byteSize (l.text ++ (gap.1 ++ sign.chars)))
  | not gap word e => e.uses (index + byteSize (gap.1 ++ word.1.toList))
  | logic _ l gap word r =>
    l.uses index ++ r.uses (index + byteSize (l.text ++ (gap.1 ++ word.1.toList)))
  | parens gap e _ => e.uses (index + byteSize (gap.1 ++ ['(']))

/-- How tight the text binds: that of an operator as tight as the operator, any other tighter. -/
def rank : Formula → Nat
  | logic op _ _ _ _ => op.rank
  | _ => 3

/-- There are parentheses where they are needed. -/
def Enough : Formula → Prop
  | truth _ _ | name _ _ => True
  | compare l _ _ r _ => l.Enough ∧ r.Enough
  | not _ _ e => 3 ≤ e.rank ∧ e.Enough
  | logic op l _ _ r => op.rank ≤ l.rank ∧ op.rank < r.rank ∧ l.Enough ∧ r.Enough
  | parens _ e _ => e.Enough

/-- Whether there are enough parentheses can be decided. -/
instance decidableEnough : (w : Formula) → Decidable w.Enough
  | truth _ _ | name _ _ => inferInstanceAs (Decidable True)
  | compare l _ _ r _ => inferInstanceAs (Decidable (l.Enough ∧ r.Enough))
  | not _ _ e =>
    have := decidableEnough e
    inferInstanceAs (Decidable (3 ≤ e.rank ∧ e.Enough))
  | logic op l _ _ r =>
    have := decidableEnough l
    have := decidableEnough r
    inferInstanceAs (Decidable (op.rank ≤ l.rank ∧ op.rank < r.rank ∧ l.Enough ∧ r.Enough))
  | parens _ e _ => decidableEnough e

/-- Words are apart from the characters of names next to them. -/
def Apart : Formula → Prop
  | truth _ _ | name _ _ => True
  | compare l gap sign r _ => Text.apart l.text (gap.1 ++ sign.chars) ∧ Text.apart sign.chars r.text
  | not _ word e => Text.apart word.1.toList e.text ∧ e.Apart
  | logic _ l gap word r => Text.apart l.text (gap.1 ++ word.1.toList) ∧
    Text.apart word.1.toList r.text ∧ l.Apart ∧ r.Apart
  | parens _ e _ => e.Apart

/-- Whether words are kept apart can be decided. -/
instance decidableApart : (w : Formula) → Decidable w.Apart
  | truth _ _ | name _ _ => inferInstanceAs (Decidable True)
  | compare l gap sign r _ => inferInstanceAs
    (Decidable (Text.apart l.text (gap.1 ++ sign.chars) ∧ Text.apart sign.chars r.text))
  | not _ word e =>
    have := decidableApart e
    inferInstanceAs (Decidable (Text.apart word.1.toList e.text ∧ e.Apart))
  | logic _ l gap word r =>
    have := decidableApart l
    have := decidableApart r
    inferInstanceAs (Decidable (Text.apart l.text (gap.1 ++ word.1.toList) ∧
      Text.apart word.1.toList r.text ∧ l.Apart ∧ r.Apart))
  | parens _ e _ => decidableApart e

/-- How deep negations and parentheses are nested in each other. -/
def depth : Formula → Nat
  | truth _ _ | name _ _ => 0
  | compare l _ _ r _ => max l.depth r.depth
  | not _ _ e => e.depth + 1
  | logic _ l _ _ r => max l.depth r.depth
  | parens _ e _ => e.depth + 1

/-- A formula is nested no deeper than it has bytes. -/
theorem depth_le (w : Formula) : w.depth ≤ byteSize w.text := by
  induction w with
  | truth => exact Nat.zero_le _
  | name => exact Nat.zero_le _
  | compare l gap sign r _ =>
    have hl := l.depth_le
    have hr := r.depth_le
    simp only [depth, text, byteSize_append]
    omega
  | not gap word e ih =>
    have hword : 0 < byteSize word.1.toList := by
      have hall : ∀ w ∈ negations, 0 < byteSize w.toList := by decide
      exact hall _ word.2
    simp only [depth, text, byteSize_append]
    omega
  | logic op l gap word r ihl ihr =>
    simp only [depth, text, byteSize_append]
    omega
  | parens gap e gap' ih =>
    have hparen : byteSize ['('] = 1 := by decide
    simp only [depth, text, byteSize_append, hparen]
    omega

end Formula

end Dialogue
