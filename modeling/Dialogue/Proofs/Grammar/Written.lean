import Dialogue.Grammar
import Dialogue.Proofs.Parser.Blank

/-!
# Written arithmetic

How an arithmetic expression is *written*: which decimals and names it holds, what white space is
before each of its tokens, and where it has parentheses. From this follow its text
(`Written.text`), the expression, which does not know of parentheses (`Written.expr`), and the uses
of variables with their offsets (`Written.uses`).

A written expression has *enough* parentheses if every operand binds at least as tight as its place
asks for: as tight as the operator on the left of it, tighter on the right (`Written.Enough`).
-/

namespace Dialogue

/-- A character of a name is no white space. -/
theorem Text.not_isSpace_of_isWord {x : Char} (hx : isWord x) : isSpace x = false := by
  refine Bool.eq_false_iff.2 fun h => ?_
  have hspaces : ∀ n ∈ [9, 10, 11, 12, 13, 0x20, 0x85, 0xa0, 0x1680, 0x2000, 0x2001, 0x2002, 0x2003,
      0x2004, 0x2005, 0x2006, 0x2007, 0x2008, 0x2009, 0x200a, 0x2028, 0x2029, 0x202f, 0x205f,
      0x3000], isWord (Char.ofNat n) = false := by
    decide +kernel
  have hnot : isWord (Char.ofNat x.toNat) = false := by
    refine hspaces _ ?_
    simp only [isSpace, Bool.or_eq_true, Bool.and_eq_true, decide_eq_true_eq] at h
    simp only [List.mem_cons, List.not_mem_nil, or_false]
    omega
  rw [Char.ofNat_toNat, hx] at hnot
  cases hnot

/-- White space before a token. There may be line breaks in it. -/
abbrev Gap := { cs : List Char // ∀ x ∈ cs, Text.isSpace x }

/-- White space given by its characters. -/
def Gap.ofChars (cs : List Char) (h : cs.all Text.isSpace) : Gap := ⟨cs, List.all_eq_true.1 h⟩

/-- Digits, between and after which there may be underscores. -/
structure Digits where
  /-- The digits and the underscores. -/
  chars : List Char
  /-- A digit comes first. -/
  first : chars.head?.any Char.isDigit
  /-- There is nothing else. -/
  only : ∀ x ∈ chars, x.isDigit || x = '_'

/-- The digits alone. -/
def Digits.plain (d : Digits) : List Char := d.chars.filter (· ≠ '_')

/-- A decimal with an optional sign and an optional fraction. -/
structure Numeral where
  /-- The sign. -/
  sign : Option Char
  /-- The digits before the point. -/
  whole : Digits
  /-- The digits behind the point. -/
  fraction : Option Digits
  /-- The signs that there are. -/
  isSign : ∀ x ∈ sign, x = '+' ∨ x = '-'

namespace Numeral

/-- No sign is neither of the two. -/
theorem isSign_none : ∀ x ∈ (none : Option Char), x = '+' ∨ x = '-' :=
  fun x h => absurd h (Option.not_mem_none x)

/-- The characters of a decimal without its sign. -/
def unsigned (n : Numeral) : List Char :=
  n.whole.chars ++ n.fraction.elim [] ('.' :: ·.chars)

/-- The characters of a decimal. -/
def chars (n : Numeral) : List Char := n.sign.toList ++ n.unsigned

/-- The number that a decimal stands for. -/
def value (n : Numeral) : Float :=
  let x := Number.ofDecimal n.whole.plain (n.fraction.elim [] Digits.plain) 0
  if n.sign = some '-' then -x else x

end Numeral

/-- A name that is not reserved. -/
structure Name where
  /-- The characters of the name. -/
  chars : List Char
  /-- They are those of names. -/
  word : ∀ x ∈ chars, Text.isWord x
  /-- What comes first is neither a digit nor an underscore. -/
  first : ∃ x ∈ chars.head?, x.isDigit = false ∧ x ≠ '_'
  /-- It is not reserved. -/
  free : String.ofList chars ∉ Grammar.reserved

/-- A name given by its characters. -/
def Name.ofChars (x : Char) (xs : List Char) (word : (x :: xs).all Text.isWord)
    (first : x.isDigit = false ∧ x ≠ '_')
    (free : Grammar.reserved.elem (String.ofList (x :: xs)) = false) : Name :=
  ⟨x :: xs, List.all_eq_true.1 word, ⟨x, rfl, first⟩, fun h =>
    Bool.false_ne_true (free.symm.trans (List.elem_eq_true_of_mem h))⟩

/-- The sign of an operator is one character. -/
def ArithOp.char : ArithOp → Char
  | add => '+'
  | subtract => '-'
  | multiply => '*'
  | divide => '/'

/-- Operators are told by their signs. -/
theorem ArithOp.char_injective {op op' : ArithOp} (h : op.char = op'.char) : op = op' := by
  cases op <;> cases op' <;> first | rfl | cases h

/-- The sign of an operator is no white space. -/
theorem ArithOp.isSpace_char (op : ArithOp) : Text.isSpace op.char = false := by cases op <;> decide

/-- How tight an operator binds. -/
def ArithOp.rank : ArithOp → Nat
  | add | subtract => 0
  | multiply | divide => 1

/-- There are two ranks of operators. -/
theorem ArithOp.rank_lt (op : ArithOp) : op.rank < 2 := by cases op <;> decide

/-- An arithmetic expression as it is written. -/
inductive Written where
  /-- A decimal. -/
  | numeral (gap : Gap) (n : Numeral)
  /-- A variable. -/
  | name (gap : Gap) (n : Name)
  /-- Two operands with an operator between them. -/
  | arith (op : ArithOp) (l : Written) (gap : Gap) (r : Written)
  /-- An expression in parentheses. -/
  | parens (gap : Gap) (e : Written) (gap' : Gap)

namespace Written

/-- The text. -/
def text : Written → List Char
  | numeral gap n => gap.1 ++ n.chars
  | name gap n => gap.1 ++ n.chars
  | arith op l gap r => l.text ++ (gap.1 ++ [op.char]) ++ r.text
  | parens gap e gap' => gap.1 ++ ['('] ++ e.text ++ gap'.1 ++ [')']

/-- The expression that is written. -/
def expr : Written → Expr .number
  | numeral _ n => .literal (k := .number) n.value
  | name _ n => .variable (String.ofList n.chars)
  | arith op l _ r => .arith op l.expr r.expr
  | parens _ e _ => e.expr

/-- The uses of its variables, from left to right, of a text at an offset. -/
def uses (index : Nat) : Written → List (Found Use)
  | numeral _ _ => []
  | name gap n => [⟨index + byteSize gap.1, .typed (String.ofList n.chars) .number⟩]
  | arith op l gap r =>
    l.uses index ++ r.uses (index + byteSize (l.text ++ (gap.1 ++ [op.char])))
  | parens gap e _ => e.uses (index + byteSize (gap.1 ++ ['(']))

/-- How tight the text binds: that of an operator as tight as the operator, any other tighter. -/
def rank : Written → Nat
  | arith op _ _ _ => op.rank
  | _ => 2

/-- There are parentheses where they are needed. -/
def Enough : Written → Prop
  | numeral _ _ | name _ _ => True
  | arith op l _ r => op.rank ≤ l.rank ∧ op.rank < r.rank ∧ l.Enough ∧ r.Enough
  | parens _ e _ => e.Enough

/-- Whether there are enough parentheses can be decided. -/
instance decidableEnough : (w : Written) → Decidable w.Enough
  | numeral _ _ | name _ _ => inferInstanceAs (Decidable True)
  | arith op l _ r =>
    have := decidableEnough l
    have := decidableEnough r
    inferInstanceAs (Decidable (op.rank ≤ l.rank ∧ op.rank < r.rank ∧ l.Enough ∧ r.Enough))
  | parens _ e _ => decidableEnough e

/-- How deep parentheses are nested in each other. -/
def depth : Written → Nat
  | numeral _ _ | name _ _ => 0
  | arith _ l _ r => max l.depth r.depth
  | parens _ e _ => e.depth + 1

/-- What is written is nested no deeper than it has bytes. -/
theorem depth_le (w : Written) : w.depth ≤ byteSize w.text := by
  refine Nat.le_trans ?_ (length_le_byteSize w.text)
  induction w with
  | numeral => exact Nat.zero_le _
  | name => exact Nat.zero_le _
  | arith op l gap r ihl ihr =>
    simp only [depth, text, List.length_append]
    omega
  | parens gap e gap' ih =>
    simp only [depth, text, List.length_append, List.length_singleton]
    omega

end Written

end Dialogue
