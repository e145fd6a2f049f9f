import Dialogue.Proofs.Grammar.Formula
import Dialogue.Proofs.Grammar.Relation

/-!
# Truth values tried on arithmetic

Where a formula may stand a number may stand as well, as an operand of a comparison, and the rules
for truth values are tried first. What they make of arithmetic is told by how it is written: a name,
in parentheses or not, is taken for a truth value, and anything else is refused (`Guesses`). So a
comparison with a decimal in it is never taken for one of truth values
(`booleanReading_of_not_bare`).

What may follow a formula is told by its first character behind white space (`Halts`): it is neither
that of an operator that binds as tight, nor that of a comparison sign or an arithmetic one.

An operand in parentheses is tried as a formula, and that ends in an attempt on the first operand of
what is in them. So both are shown by induction on the depth (`guesses_boolean`).
-/

namespace Dialogue

open Dialogue.Parser

namespace Written

/-- Is it a name, in parentheses or not? -/
def isBare : Written → Bool
  | name _ _ => true
  | parens _ e _ => e.isBare
  | _ => false

/-- The first operand. -/
def head : Written → Written
  | arith _ l _ _ => l.head
  | w => w

/-- What is written behind the first operand. -/
def tail : Written → List Char
  | arith op l gap r => l.tail ++ (gap.1 ++ [op.char]) ++ r.text
  | _ => []

/-- What is written is its first operand, and the rest. -/
theorem text_eq (w : Written) : w.text = w.head.text ++ w.tail := by
  induction w with
  | numeral | name | parens => exact (List.append_nil _).symm
  | arith op l gap r ihl _ =>
    rw [text, ihl, head, tail]
    simp only [List.append_assoc]

/-- The first operand binds tighter than any operator. -/
theorem rank_head (w : Written) : 2 ≤ w.head.rank := by
  induction w with
  | numeral | name | parens => exact Nat.le_refl 2
  | arith op l gap r ihl _ => exact ihl

/-- The first operand has enough parentheses if the whole has. -/
theorem Enough.head {w : Written} (h : w.Enough) : w.head.Enough := by
  induction w with
  | numeral | name | parens => exact h
  | arith op l gap r ihl _ => exact ihl h.2.2.1

/-- The first operand is nested no deeper than the whole. -/
theorem depth_head_le (w : Written) : w.head.depth ≤ w.depth := by
  induction w with
  | numeral | name | parens => exact Nat.le_refl _
  | arith op l gap r ihl _ => exact Nat.le_trans ihl (Nat.le_max_left _ _)

/-- There is nothing behind the first operand, or an operator is next. -/
theorem head_cases (w : Written) :
    w.head = w ∧ w.tail = [] ∨
      (∃ op l gap r, w = arith op l gap r) ∧
        ∃ (gap : Gap) (op : ArithOp) (xs : List Char), w.tail = gap.1 ++ op.char :: xs := by
  induction w with
  | numeral | name | parens => exact .inl ⟨rfl, rfl⟩
  | arith op l gap r ihl _ =>
    refine .inr ⟨⟨op, l, gap, r, rfl⟩, ?_⟩
    rcases ihl with ⟨-, htail⟩ | ⟨-, gap', op', xs, htail⟩
    · refine ⟨gap, op, r.text, ?_⟩
      rw [tail, htail, List.nil_append, List.append_assoc]
      rfl
    · refine ⟨gap', op', xs ++ (gap.1 ++ [op.char]) ++ r.text, ?_⟩
      rw [tail, htail]
      simp only [List.append_assoc, List.cons_append]

/-- A bare operand binds tighter than any operator. -/
theorem rank_of_isBare {w : Written} (h : w.isBare) : 2 ≤ w.rank := by
  cases w with
  | numeral | name | parens => exact Nat.le_refl 2
  | arith op l gap r => cases h

/-- What is no name and has no operator starts like no name. -/
theorem exists_mark {w : Written} (hrank : 2 ≤ w.rank) (hname : ∀ gap n, w ≠ name gap n) :
    ∃ (gap : Gap) (x : Char) (xs : List Char), w.text = gap.1 ++ x :: xs ∧
      Text.isSpace x = false ∧ (Text.isWord x → x.isDigit) := by
  cases w with
  | numeral gap n =>
    obtain ⟨x, xs, hn, hx⟩ := n.exists_signed
    refine ⟨gap, x, xs, by rw [text, hn], ?_⟩
    rcases hx with hdigit | rfl | rfl
    · exact ⟨not_isSpace_of_isDigit hdigit, fun _ => hdigit⟩
    · exact ⟨rfl, by decide⟩
    · exact ⟨rfl, by decide⟩
  | name gap n => exact absurd rfl (hname gap n)
  | arith op l gap r => exact absurd op.rank_lt (Nat.not_lt.2 hrank)
  | parens gap e gap' =>
    refine ⟨gap, '(', e.text ++ gap'.1 ++ [')'], ?_, rfl, by decide⟩
    rw [text]
    simp only [List.append_assoc, List.cons_append, List.nil_append]

end Written

namespace Grammar

variable {c : Cursor} {f : Facts} {gap : Gap} {zs : List Char} {set behind : List Char}
  {registry : Registry} {inner : Nested} {depth : Nat} {w : Written}

/-! ## What comes first -/

/-- What follows the whole text, or an operator, follows the first operand. -/
theorem Ends.of_head (h : Ends set w.text zs) (hset : ∀ op : ArithOp, op.char ∉ set) :
    Ends set w.head.text (w.tail ++ zs) := by
  rcases w.head_cases with ⟨hhead, htail⟩ | ⟨-, gap, op, xs, htail⟩
  · rwa [hhead, htail]
  · rw [htail, List.append_assoc, List.cons_append]
    exact .sign gap op.isSpace_char (hset op) (by cases op <;> decide) (by cases op <;> decide)

/-- Where some text is ahead, its first operand is. -/
theorem rest_head (h : c.rest = w.text ++ zs) : c.rest = w.head.text ++ (w.tail ++ zs) := by
  rw [h, w.text_eq, List.append_assoc]

/-- Behind white space nothing is next that a name or a word starts with. -/
def Nameless (zs : List Char) : Prop :=
  ∀ x ∈ (zs.dropWhile Text.isSpace).head?, Text.isWord x → x.isDigit

/-- Where no name is ahead, none is read. -/
theorem Nameless.misses (h : Nameless c.rest) :
    Misses unreserved (c.skipWhile Text.isSpace) f :=
  misses_unreserved (by rwa [Cursor.rest_skipWhile])

/-- Where no name is ahead, no word of the grammar is. -/
theorem Nameless.noWord (h : Nameless zs) : NoWord (zs.dropWhile Text.isSpace) := noWord_of_head h

/-- A gap and a character that no name starts with are no name. -/
theorem nameless_of_mark {x : Char} {xs : List Char} (h : zs = gap.1 ++ x :: xs)
    (hspace : Text.isSpace x = false) (hdigit : Text.isWord x → x.isDigit) : Nameless zs := by
  rw [Nameless, h, dropWhile_gap hspace]
  rintro _ ⟨⟩
  exact hdigit

/-- The first operand starts like no name unless it is one. -/
theorem Written.nameless (hrank : 2 ≤ w.rank) (hname : ∀ gap n, w ≠ .name gap n)
    (zs : List Char) : Nameless (w.text ++ zs) := by
  obtain ⟨gap, x, xs, htext, hspace, hdigit⟩ := w.exists_mark hrank hname
  have hfirst : w.text ++ zs = gap.1 ++ x :: (xs ++ zs) := by
    rw [htext, List.append_assoc, List.cons_append]
  exact nameless_of_mark hfirst hspace hdigit

/-- A name that ends is no word of the grammar. -/
theorem noWord_of_text (gap : Gap) (n : Name) (h : Ends set (gap.1 ++ n.chars) zs) :
    NoWord ((gap.1 ++ n.chars ++ zs).dropWhile Text.isSpace) := by
  obtain ⟨x, xs, hn, hword, -⟩ := n.exists_cons
  have hnoWord := noWord_of_name n fun y hy => (h.name gap n y hy).1
  rw [List.append_assoc]
  rw [hn, List.cons_append] at hnoWord ⊢
  rwa [dropWhile_gap (Text.not_isSpace_of_isWord hword)]

/-- Arithmetic does not start with a word. -/
theorem noWord_written (h : Ends [] w.text zs) :
    NoWord ((w.text ++ zs).dropWhile Text.isSpace) := by
  have hends := h.of_head nofun
  rw [w.text_eq, List.append_assoc]
  by_cases hname : ∃ gap n, w.head = .name gap n
  · obtain ⟨gap, n, hn⟩ := hname
    rw [hn] at hends ⊢
    exact noWord_of_text gap n hends
  · exact (Written.nameless w.rank_head (fun gap n hn => hname ⟨gap, n, hn⟩) _).noWord

/-- What is written starts with no quote and with no sign of formulas. -/
theorem head_written (w : Written) (zs : List Char) :
    ∀ x ∈ ((w.text ++ zs).dropWhile Text.isSpace).head?, x ∉ ['"', '!', '='] := by
  obtain ⟨gap, x, xs, htext, hspace, hx⟩ := w.exists_first
  rw [htext, List.append_assoc, List.cons_append, dropWhile_gap hspace]
  rintro _ ⟨⟩
  exact hx

/-! ## What follows a formula -/

/-- A closing parenthesis is next. -/
def Closes (zs : List Char) : Prop := ∃ (gap : Gap) (ys : List Char), zs = gap.1 ++ ')' :: ys

/-- What is closed has ended for every operator. -/
theorem Closes.ends (h : Closes zs) (hset : ')' ∉ set) : Ends set behind zs := by
  obtain ⟨gap, ys, rfl⟩ := h
  exact .sign gap rfl hset (by decide) (by decide)

/-- The characters that operators start with that bind as tight as a rank, and the signs of
    comparisons and of arithmetic. -/
def marks (rank : Nat) : List Char :=
  (([.and, .xor, .or].filter fun op : LogicOp => rank ≤ op.rank).flatMap fun op =>
    op.spellings.filterMap (·.toList.head?)) ++ (compareMarks ++ signs 0)

/-- No operator of logic starts like arithmetic or a comparison. -/
theorem head_of_spelling {op : LogicOp} {w : String} {x : Char} (hw : w ∈ op.spellings)
    (hx : w.toList.head? = some x) : x ≠ '(' ∧ x ≠ '.' ∧ x ∉ compareMarks ++ signs 0 := by
  have hall : op.spellings.all fun w => w.toList.head?.all fun x =>
      x ≠ '(' && x ≠ '.' && !(compareMarks ++ signs 0).contains x := by
    cases op <;> decide
  simpa [and_assoc] using (Option.all_eq_true _ _).1 (List.all_eq_true.1 hall w hw) x hx

/-- The first character of an operator is a mark if it binds as tight. -/
theorem mem_marks {rank : Nat} {op : LogicOp} {w : String} {x : Char} (hw : w ∈ op.spellings)
    (hx : w.toList.head? = some x) : x ∈ marks rank ↔ rank ≤ op.rank := by
  constructor
  · intro h
    rcases List.mem_append.1 h with h | h
    · obtain ⟨op', hop, hx'⟩ := List.mem_flatMap.1 h
      obtain ⟨w', hw', hx'⟩ := List.mem_filterMap.1 hx'
      have hfirst : ∀ w ∈ op.spellings, ∀ w' ∈ op'.spellings,
          w.toList.head? = w'.toList.head? → op = op' := by
        cases op <;> cases op' <;> decide
      rw [hfirst w hw w' hw' (hx.trans hx'.symm)]
      exact of_decide_eq_true (List.mem_filter.1 hop).2
    · exact absurd h (head_of_spelling hw hx).2.2
  · intro h
    refine List.mem_append_left _ (List.mem_flatMap.2 ⟨op, ?_, List.mem_filterMap.2 ⟨w, hw, hx⟩⟩)
    exact List.mem_filter.2 ⟨by cases op <;> decide, decide_eq_true h⟩

/-- What may follow a formula: nothing that it would go on with. -/
abbrev Halts (rank : Nat) (behind zs : List Char) : Prop := Ends (marks rank) behind zs

section

variable {rank : Nat}

/-- The signs of comparisons are among the marks of every rank. -/
theorem compareMarks_subset_marks : compareMarks ⊆ marks rank :=
  fun _ h => List.mem_append_right _ (List.mem_append_left _ h)

/-- The signs of arithmetic are among the marks of every rank. -/
theorem signs_subset_marks : signs 0 ⊆ marks rank :=
  fun _ h => List.mem_append_right _ (List.mem_append_right _ h)

/-- Fewer operators bind as tight as a higher rank. -/
theorem marks_subset {m n : Nat} (h : m ≤ n) : marks n ⊆ marks m := by
  intro x hx
  rcases List.mem_append.1 hx with hx | hx
  · obtain ⟨op, hop, hx⟩ := List.mem_flatMap.1 hx
    obtain ⟨w, hw, hx⟩ := List.mem_filterMap.1 hx
    have hrank : n ≤ op.rank := of_decide_eq_true (List.mem_filter.1 hop).2
    exact (mem_marks hw hx).2 (Nat.le_trans h hrank)
  · exact List.mem_append_right _ hx

/-- What is closed halts every formula. -/
theorem Closes.halts (h : Closes zs) : Halts rank behind zs := by
  have hmarks : ')' ∉ marks 0 := by decide
  exact h.ends fun hmem => hmarks (marks_subset (Nat.zero_le _) hmem)

/-- The operators of logic have spellings tokens can be read by. -/
theorem wellSpelled_spellings (op : LogicOp) : wellSpelled op.spellings := by
  cases op <;> decide

/-- A weaker operator halts a formula that binds tighter. -/
theorem Halts.operator (gap : Gap) {op : LogicOp} {w : String} (hw : w ∈ op.spellings)
    (h : op.rank < rank) (hapart : Text.apart behind (gap.1 ++ w.toList)) (zs : List Char) :
    Halts rank behind (gap.1 ++ w.toList ++ zs) := by
  obtain ⟨x, xs, hx, hspace⟩ := exists_first (wellSpelled_spellings op) hw
  have hhead : w.toList.head? = some x := by rw [hx]; rfl
  obtain ⟨hparen, hpoint, -⟩ := head_of_spelling hw hhead
  refine .word gap hx hspace (fun hmem => ?_) ⟨hparen, hpoint⟩ hapart zs
  exact absurd ((mem_marks hw hhead).1 hmem) (Nat.not_le.2 h)

/-- Where a formula halts, none of its operators is read. -/
theorem misses_logicOperator {op : LogicOp} (h : Halts rank behind c.rest) (hop : rank ≤ op.rank)
    {α : Type} (a : α) : Misses (operator a op.spellings) c f := by
  refine misses_operator_of_head (wellSpelled_spellings op) (fun x hx w hw heq => ?_) a
  exact h.lacks x hx ((mem_marks hw heq).2 hop)

end

/-! ## Comparisons of names -/

/-- No names are compared where none is first. -/
theorem Nameless.misses_variableComparison (h : Nameless c.rest) : Misses variableComparison c f :=
  misses_lexeme (.after (rfl : position _ f = .ok _ _ f) ((misses_variableName h.misses).bind _))

/-- A name is not compared where no comparison sign is next. -/
theorem refuses_variableComparison_name (gap : Gap) (n : Name) :
    Refuses (Ends compareMarks (gap.1 ++ n.chars)) variableComparison (gap.1 ++ n.chars) := by
  intro c f zs hc h hzs
  have hrest := Cursor.rest_skip_append (h.trans (List.append_assoc ..))
  rw [Misses, variableComparison, ← lexeme, lexeme_of_name gap n hc h]
  refine Misses.after (rfl : position _ f = .ok _ _ f) ?_
  have hname := variableName_eq (j := f) hrest (hzs.name gap n)
  rw [← Cursor.rest_skip_append hrest] at hzs
  exact .after hname ((misses_compareSign hzs).bind _)

/-- Arithmetic that is not a name alone is not taken for a name that is compared. -/
theorem refuses_variableComparison (hname : ∀ gap n, w ≠ .name gap n) :
    Refuses (Ends [] w.text) variableComparison w.text := by
  intro c f zs hc h hzs
  have hhead := rest_head h
  rcases w.head_cases with ⟨heq, -⟩ | ⟨-, gap, op, xs, htail⟩
  · have hrank := w.rank_head
    rw [heq] at hrank
    exact Nameless.misses_variableComparison (h ▸ Written.nameless hrank hname zs)
  by_cases hfirst : ∃ gap n, w.head = .name gap n
  · obtain ⟨gap', n, hn⟩ := hfirst
    rw [hn] at hhead
    refine refuses_variableComparison_name gap' n hc hhead ?_
    rw [htail, List.append_assoc]
    exact .sign gap op.isSpace_char (not_mem_compareMarks op) (by cases op <;> decide)
      (by cases op <;> decide)
  · refine Nameless.misses_variableComparison (hhead ▸ Written.nameless w.rank_head ?_ _)
    exact fun gap n hn => hfirst ⟨gap, n, hn⟩

/-! ## Attempts -/

/-- What a rule for truth values makes of arithmetic: it takes a name for a truth value, in
    parentheses or not, and refuses anything else. -/
structure Guesses (fits : List Char → Prop) (p : Rule (Expr .boolean)) (w : Written) : Prop where
  /-- A name is taken for a truth value. -/
  bare : w.isBare → ∃ e uses, ReadsAs fits p w.text e uses
  /-- A number is refused. -/
  other : w.isBare = false → Refuses fits p w.text

/-- What starts neither with a name nor with parentheses is no truth value. -/
theorem misses_boolean (hparens : Misses (parenthesized inner.disjunction) c f)
    (h : Nameless c.rest) : Misses (boolean registry inner) c f := by
  have hword {v : String} (hv : v ∈ reserved) : Misses (lexeme (keyword v)) c f := by
    refine misses_lexeme (NoWord.misses_keyword ?_ hv)
    rw [Cursor.rest_skipWhile]
    exact h.noWord
  refine hparens.orElse <| ((hword (v := "true") (by decide)).bind _).orElse <|
    ((hword (v := "false") (by decide)).bind _).orElse <| .orElse ?_ ?_
  · exact misses_lexeme (misses_call_of_unreserved h.misses)
  · exact misses_lexeme (misses_variableOf h.misses)

/-- A name is read as a truth value. -/
theorem reads_boolean_name (gap : Gap) (n : Name) :
    ReadsAs (Ends set (gap.1 ++ n.chars)) (boolean registry inner) (gap.1 ++ n.chars)
      (.variable (String.ofList n.chars))
      fun i => [⟨i + byteSize gap.1, .typed (String.ofList n.chars) .boolean⟩] := by
  intro c f zs hc h hzs
  obtain ⟨x, xs, hfirst, -, hword, -⟩ := exists_rest_of_name gap n h
  have hkeyword {v : String} (hv : v ∈ reserved) : Misses (lexeme (keyword v)) c f := by
    refine misses_lexeme (NoWord.misses_keyword ?_ hv)
    rw [Cursor.rest_skipWhile, h]
    exact noWord_of_text gap n hzs
  have hparen : x ≠ '(' := by
    rintro rfl
    exact absurd hword (by decide)
  refine (misses_parenthesized hparen (Text.not_isSpace_of_isWord hword) hfirst).orElse_eq ?_
  refine ((hkeyword (v := "true") (by decide)).bind _).orElse_eq ?_
  refine ((hkeyword (v := "false") (by decide)).bind _).orElse_eq ?_
  exact Misses.orElse_eq (refuses_call gap n hc h hzs) (reads_variable gap n hc h hzs)

/-- Operands are guessed if what is in their parentheses is. -/
theorem guesses_boolean_of_nested
    (hinner : ∀ e : Written, e.Enough → e.depth < depth → Guesses Closes inner.disjunction e)
    (hw : w.Enough) (hd : w.depth ≤ depth) (hrank : 2 ≤ w.rank) :
    Guesses (Ends [] w.text) (boolean registry inner) w := by
  cases w with
  | numeral gap n =>
    refine ⟨fun hbare => absurd hbare Bool.false_ne_true, fun _ c f zs hc h hzs => ?_⟩
    obtain ⟨x, xs, hn, hparen, hspace⟩ := n.exists_chars
    have hfirst : c.rest = gap.1 ++ x :: (xs ++ zs) := by
      rw [h, Written.text, hn, List.append_assoc, List.cons_append]
    have hname : ∀ gap' n', Written.numeral gap n ≠ .name gap' n' := fun _ _ => Written.noConfusion
    exact misses_boolean (misses_parenthesized hparen hspace hfirst)
      (h ▸ Written.nameless hrank hname zs)
  | name gap n =>
    exact ⟨fun _ => ⟨_, _, reads_boolean_name gap n⟩,
      fun hbare => absurd hbare.symm Bool.false_ne_true⟩
  | arith op l gap r => exact absurd op.rank_lt (Nat.not_lt.2 hrank)
  | parens gap e gap' =>
    have he := hinner e hw hd
    have hname : ∀ gap₁ n, Written.parens gap e gap' ≠ .name gap₁ n :=
      fun _ _ => Written.noConfusion
    have hclose : ∀ zs, Closes (gap'.1 ++ ')' :: zs) := fun zs => ⟨gap', zs, rfl⟩
    refine ⟨fun hbare => ?_, fun hbare c f zs hc h hzs => ?_⟩
    · obtain ⟨v, uses, hv⟩ := he.bare hbare
      exact ⟨v, fun i => uses (i + byteSize (gap.1 ++ ['('])), fun c f zs hc h hzs =>
        orElse_eq (hv.parenthesized hclose hc h hzs)⟩
    · exact misses_boolean ((he.other hbare).parenthesized hclose hc h hzs)
        (h ▸ Written.nameless hrank hname zs)

/-- Operands nested no deeper are guessed. -/
def GuessesOperands (registry : Registry) (inner : Nested) (depth : Nat) : Prop :=
  ∀ e : Written, e.Enough → e.depth ≤ depth → 2 ≤ e.rank →
    Guesses (Ends [] e.text) (boolean registry inner) e

section

variable (hboolean : GuessesOperands registry inner depth)

include hboolean

/-- Where a number is tried as a truth value no truth value is read, or not all of it is: then an
    arithmetic sign is next. -/
theorem boolean_of_not_bare (hw : w.Enough) (hd : w.depth ≤ depth) (hbare : w.isBare = false)
    (hc : c.Level) (h : c.rest = w.text ++ zs) (hzs : Ends [] w.text zs) :
    Misses (boolean registry inner) c f ∨ ∃ e c₁ f₁, boolean registry inner c f = .ok e c₁ f₁ ∧
      c₁.Level ∧
        ∃ (gap : Gap) (op : ArithOp) (xs : List Char), c₁.rest = gap.1 ++ op.char :: xs := by
  have hhead := rest_head h
  have hends : Ends [] w.head.text (w.tail ++ zs) := hzs.of_head nofun
  have hguess := hboolean w.head hw.head (Nat.le_trans w.depth_head_le hd) w.rank_head
  cases hb : w.head.isBare with
  | false => exact .inl (hguess.other hb hc hhead hends)
  | true =>
    obtain ⟨e, uses, he⟩ := hguess.bare hb
    rcases w.head_cases with ⟨heq, -⟩ | ⟨-, gap, op, xs, htail⟩
    · rw [heq, hbare] at hb
      cases hb
    · refine .inr ⟨e, _, _, he hc hhead hends, hc.skip _, gap, op, xs ++ zs, ?_⟩
      rw [Cursor.rest_skip_append hhead, htail, List.append_assoc, List.cons_append]

/-- So a number that comes first is read again. -/
theorem booleanReading_of_not_bare (hw : w.Enough) (hd : w.depth ≤ depth)
    (hbare : w.isBare = false) (hc : c.Level) (h : c.rest = w.text ++ zs)
    (hzs : Ends [] w.text zs) :
    ∃ c₁ f₁, booleanReading registry inner c f = .ok none c₁ f₁ := by
  obtain hmiss | ⟨e, c₁, f₁, he, hc₁, gap, op, xs, hrest⟩ :=
    boolean_of_not_bare hboolean (f := f) hw hd hbare hc h hzs
  · exact ⟨c, f, booleanReading_of_misses hmiss⟩
  · have hends : Ends compareMarks [] c₁.rest := by
      rw [hrest]
      exact .sign gap op.isSpace_char (not_mem_compareMarks op) (by cases op <;> decide)
        (by cases op <;> decide)
    have hreading := booleanReading_alone he (misses_compareSign hends)
    obtain ⟨c₂, hsign⟩ := arithmeticSign_eq (f := f₁) hc₁ hrest
    exact ⟨c₁, f₁, hreading.trans (unlessArithmetic_of_ok hsign)⟩

end

/-- A name is not compared as a text where no comparison sign is next, and other arithmetic starts
    like no text. -/
theorem refuses_comparisonOf_operand :
    Refuses (Ends compareMarks w.text) (comparisonOf (operand registry inner)) w.text := by
  intro c f zs hc h hzs
  have hquote : Misses (lexeme (quote inner)) c f := by
    refine misses_lexeme ((misses_char fun x hx => ?_).bind _)
    rw [Cursor.rest_skipWhile, h] at hx
    rintro rfl
    exact head_written w zs _ hx (by decide)
  have hhead := rest_head h
  by_cases hname : ∃ gap n, w.head = .name gap n
  · obtain ⟨gap, n, hn⟩ := hname
    have hends := hzs.of_head not_mem_compareMarks
    rw [hn, Written.text] at hends hhead
    have hvariable : operand registry inner c f = .ok _ _ _ :=
      hquote.orElse_eq <| (refuses_call gap n hc hhead hends).orElse_eq
        (reads_variable gap n hc hhead hends)
    rw [← Cursor.rest_skip_append hhead] at hends
    exact Misses.after hvariable ((misses_compareSign hends).bind _)
  · have hnameless : Nameless c.rest :=
      hhead ▸ Written.nameless w.rank_head (fun gap n hn => hname ⟨gap, n, hn⟩) _
    refine (hquote.orElse <| .orElse ?_ ?_).bind _
    · exact misses_lexeme (misses_call_of_unreserved hnameless.misses)
    · exact misses_lexeme (misses_variableOf hnameless.misses)

/-- A relation is guessed if operands are. -/
theorem guesses_relation
    (hboolean : GuessesOperands registry inner depth)
    (hsum : Reads 0 (sum registry inner) w) (hw : w.Enough) (hd : w.depth ≤ depth) :
    Guesses Closes (relation registry inner) w where
  bare hbare := by
    obtain ⟨e, uses, he⟩ := (hboolean w hw hd (Written.rank_of_isBare hbare)).bare hbare
    have hvariables : Refuses (Halts 0 w.text) variableComparison w.text := by
      intro c f zs hc h hzs
      by_cases hname : ∃ gap n, w = .name gap n
      · obtain ⟨gap, n, rfl⟩ := hname
        exact refuses_variableComparison_name gap n hc h (hzs.mono compareMarks_subset_marks)
      · exact refuses_variableComparison (fun gap n hn => hname ⟨gap, n, hn⟩) hc h
          (hzs.mono (List.forall_mem_nil _))
    have hread := reads_relation compareMarks_subset_marks signs_subset_marks hvariables
      (he.mono fun zs hzs => hzs.mono (List.forall_mem_nil _))
    exact ⟨e, uses, hread.mono fun zs hzs => hzs.halts⟩
  other hbare c f zs hc h hzs := by
    have hvariables : Misses variableComparison c f := by
      refine refuses_variableComparison ?_ hc h (hzs.ends List.not_mem_nil)
      rintro gap n rfl
      cases hbare
    obtain ⟨c₁, f₁, hreading⟩ :=
      booleanReading_of_not_bare hboolean hw hd hbare (f := f) hc h (hzs.ends List.not_mem_nil)
    have hread := hsum (f := f) hc h (hzs.ends (by decide))
    rw [Misses, relation_of_misses hvariables, insteadOf_of_none hreading]
    refine Misses.orElse ?_ (refuses_comparisonOf_operand hc h (hzs.ends (by decide)))
    have hcompare : Ends compareMarks w.text zs := hzs.ends (by decide)
    rw [← Cursor.rest_skip_append h] at hcompare
    exact Misses.after hread ((misses_compareSign hcompare).bind _)

/-! ## The grammar -/

/-- What starts with no sign of negation is none. -/
theorem misses_negation
    (hword : (c.rest.dropWhile Text.isSpace).takeWhile Text.isWord ≠ "not".toList)
    (hmark : ∀ x ∈ (c.rest.dropWhile Text.isSpace).head?, x ≠ '!') :
    Misses (negation inner) c f := by
  have hnot : Misses (keyword "not") (c.skipWhile Text.isSpace) f :=
    misses_keyword (by decide) (by rwa [Cursor.rest_skipWhile])
  have hws : wellSpelled negations := by decide
  have hbang : Misses (tag "!") (c.skipWhile Text.isSpace) f := by
    refine misses_symbol (w := "!") hws (by decide) fun x hx heq => ?_
    rw [Cursor.rest_skipWhile] at hx
    exact hmark x hx (Option.some.inj heq).symm
  exact (misses_lexeme (hnot.orElse (hbang.bind _))).bind _

/-- A number is not negated. -/
theorem refuses_negation_written : Refuses (Ends [] w.text) (negation inner) w.text := by
  intro c f zs hc h hzs
  refine misses_negation ?_ ?_
  · rw [h]
    exact noWord_written hzs _ (by decide)
  · rw [h]
    rintro x hx rfl
    exact head_written w zs _ hx (by decide)

/-- A chain without an operator guesses as its operand does. -/
theorem Guesses.chainLeft {fits : List Char → Prop} {p : Rule (Expr .boolean)}
    {operator : Rule (Expr .boolean → Expr .boolean → Expr .boolean)} (h : Guesses fits p w)
    (hmiss : ∀ ⦃c f⦄, fits c.rest → Misses operator c f) :
    Guesses fits (chainLeft p operator) w where
  bare hbare := by
    obtain ⟨e, uses, he⟩ := h.bare hbare
    exact ⟨e, uses, he.gathers.reads (fun _ h => h) hmiss⟩
  other hbare c f zs hc hrest hzs := (h.other hbare hc hrest hzs).bind _

/-- A formula is guessed if what is nested in it is. -/
theorem guesses_disjunction_of_nested
    (hinner : ∀ e : Written, e.Enough → e.depth < depth → Guesses Closes inner.disjunction e)
    (hsum : Reads 0 (sum registry inner) w) (hw : w.Enough) (hd : w.depth ≤ depth) :
    Guesses Closes (disjunction registry inner) w := by
  have hrelation : Guesses Closes (relation registry inner) w :=
    guesses_relation (fun e he hd hrank => guesses_boolean_of_nested hinner he hd hrank) hsum hw hd
  have hnegation : Refuses Closes (negation inner) w.text := fun c f zs hc h hzs =>
    refuses_negation_written hc h (hzs.ends List.not_mem_nil)
  have hunary : Guesses Closes (unary registry inner) w := by
    refine ⟨fun hbare => ?_, fun hbare c f zs hc h hzs => ?_⟩
    · obtain ⟨e, uses, he⟩ := hrelation.bare hbare
      exact ⟨e, uses, fun c f zs hc h hzs => (hnegation hc h hzs).orElse_eq (he hc h hzs)⟩
    · exact (hnegation hc h hzs).orElse (hrelation.other hbare hc h hzs)
  have hmiss (op : LogicOp) ⦃c : Cursor⦄ ⦃f : Facts⦄ (h : Closes c.rest) :
      Misses (operator (Expr.logic op) op.spellings) c f :=
    misses_logicOperator (h.halts : Halts 0 [] c.rest) (Nat.zero_le _) _
  have hconjunction : Guesses Closes (conjunction registry inner) w := hunary.chainLeft (hmiss .and)
  have hexclusive : Guesses Closes (exclusive registry inner) w :=
    hconjunction.chainLeft (hmiss .xor)
  exact hexclusive.chainLeft (hmiss .or)

/-- With rules nested as deep as parentheses are, formulas are guessed. -/
theorem guesses_disjunction (hw : w.Enough) (hd : w.depth ≤ depth) :
    Guesses Closes (disjunction registry (.upTo registry depth)) w := by
  induction depth generalizing w with
  | zero =>
    exact guesses_disjunction_of_nested (fun _ _ h => absurd h (Nat.not_lt_zero _))
      (reads_sum hw hd) hw hd
  | succ depth ih =>
    exact guesses_disjunction_of_nested (fun e he hlt => ih he (Nat.le_of_lt_succ hlt))
      (reads_sum hw hd) hw hd

/-- The operands of formulas guess what is written, by induction on the depth. -/
theorem guesses_boolean (hw : w.Enough) (hd : w.depth ≤ depth) (hrank : 2 ≤ w.rank) :
    Guesses (Ends [] w.text) (boolean registry (.upTo registry depth)) w := by
  refine guesses_boolean_of_nested (fun e he hlt => ?_) hw hd hrank
  cases depth with
  | zero => exact absurd hlt (Nat.not_lt_zero _)
  | succ depth => exact guesses_disjunction he (Nat.le_of_lt_succ hlt)

end Grammar

end Dialogue
