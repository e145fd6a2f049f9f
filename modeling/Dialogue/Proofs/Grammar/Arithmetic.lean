import Dialogue.Proofs.Grammar.Reading

/-!
# Arithmetic

Arithmetic that is written with enough parentheses is read as it is meant (`math_written`).

A rule *reads* a written expression if it reads its text as the expression with its uses of
variables, provided that what follows stops it (`Reads`): behind white space there is no operator
that binds as tight (`Stops`). Operands are read by the rule for factors, and operands joined by
operators of one rank by a chain of operands that bind tighter (`reads_chain`): along the left
operands, what the chain has accumulated is the expression that is written so far. In parentheses
the rule for sums is nested one deeper, so all of it is shown by induction on the depth
(`reads_sum`).
-/

namespace Dialogue

open Dialogue.Parser

/-- Text that ends in a decimal ends in a word character. -/
theorem Numeral.last_isWord (n : Numeral) (xs : List Char) :
    ∃ y ∈ (xs ++ n.chars).getLast?, Text.isWord y := by
  obtain ⟨ys, d, hn⟩ := n.exists_last
  obtain ⟨x, zs, hd, -⟩ := d.exists_first
  rw [hn, ← List.append_assoc]
  refine Text.exists_last_of_isWord (by rw [hd]; exact List.cons_ne_nil _ _) (fun y hy => ?_) _
  obtain hdigit | hunderscore := Bool.or_eq_true_iff.1 (d.only y hy)
  · exact Text.isWord_of_isDigit hdigit
  · rw [of_decide_eq_true hunderscore]
    decide

namespace Written

/-- Behind white space comes no quote and no sign of formulas. -/
theorem exists_first (w : Written) :
    ∃ (gap : Gap) (x : Char) (xs : List Char), w.text = gap.1 ++ x :: xs ∧
      Text.isSpace x = false ∧ x ∉ ['"', '!', '='] := by
  have hmarks : ['"', '!', '='].all (!Text.isWord ·) := by decide
  have hword {x : Char} (hx : Text.isWord x) : x ∉ ['"', '!', '='] := fun hmem => by
    simpa [hx] using List.all_eq_true.1 hmarks x hmem
  induction w with
  | numeral gap n =>
    obtain ⟨x, xs, hn, hx⟩ := n.exists_signed
    refine ⟨gap, x, xs, by rw [text, hn], ?_⟩
    rcases hx with hdigit | rfl | rfl
    · exact ⟨not_isSpace_of_isDigit hdigit, hword (Text.isWord_of_isDigit hdigit)⟩
    · exact ⟨rfl, by decide⟩
    · exact ⟨rfl, by decide⟩
  | name gap n =>
    obtain ⟨x, xs, hn, hx, -⟩ := n.exists_cons
    exact ⟨gap, x, xs, by rw [text, hn], Text.not_isSpace_of_isWord hx, hword hx⟩
  | arith op l gap r ihl _ =>
    obtain ⟨gap', x, xs, htext, hx⟩ := ihl
    refine ⟨gap', x, xs ++ (gap.1 ++ [op.char]) ++ r.text, ?_, hx⟩
    rw [text, htext]
    simp only [List.append_assoc, List.cons_append]
  | parens gap e gap' _ =>
    refine ⟨gap, '(', e.text ++ gap'.1 ++ [')'], ?_, rfl, by decide⟩
    rw [text]
    simp only [List.append_assoc, List.cons_append, List.nil_append]

/-- What is written has a first character. -/
theorem ne_nil (w : Written) : w.text ≠ [] := by
  obtain ⟨gap, x, xs, htext, -⟩ := w.exists_first
  rw [htext]
  exact List.append_ne_nil_of_right_ne_nil _ (List.cons_ne_nil _ _)

end Written

namespace Grammar

variable {c : Cursor} {f : Facts} {gap : Gap} {zs behind : List Char} {registry : Registry}
  {inner : Nested} {rank : Nat}

/-! ## What follows an operand -/

/-- The signs of the operators that bind as tight as a rank. -/
def signs (rank : Nat) : List Char :=
  ([.add, .subtract, .multiply, .divide].filter fun op : ArithOp => rank ≤ op.rank).map
    ArithOp.char

/-- A sign is among those of a rank if its operator binds no weaker. -/
theorem mem_signs {op : ArithOp} : op.char ∈ signs rank ↔ rank ≤ op.rank := by
  constructor
  · intro h
    obtain ⟨op', hop, heq⟩ := List.mem_map.1 h
    rw [← ArithOp.char_injective heq]
    exact of_decide_eq_true (List.mem_filter.1 hop).2
  · intro h
    exact List.mem_map_of_mem (List.mem_filter.2 ⟨by cases op <;> decide, decide_eq_true h⟩)

/-- Every sign is that of an operator. -/
theorem exists_of_mem_signs {x : Char} (h : x ∈ signs rank) : ∃ op : ArithOp, x = op.char := by
  obtain ⟨op, -, rfl⟩ := List.mem_map.1 h
  exact ⟨op, rfl⟩

/-- Fewer operators bind as tight as a higher rank. -/
theorem signs_subset {m n : Nat} (h : m ≤ n) : signs n ⊆ signs m := by
  intro x hx
  obtain ⟨op, rfl⟩ := exists_of_mem_signs hx
  exact mem_signs.2 (Nat.le_trans h (mem_signs.1 hx))

/-- What may follow an operand: no operator that binds as tight. -/
abbrev Stops (rank : Nat) (behind zs : List Char) : Prop := Ends (signs rank) behind zs

/-- A closing parenthesis stops every operand. -/
theorem Stops.close (gap : Gap) (zs : List Char) : Stops rank behind (gap.1 ++ ')' :: zs) := by
  refine .sign gap rfl (fun h => ?_) (by decide) (by decide)
  obtain ⟨op, hop⟩ := exists_of_mem_signs h
  cases op <;> cases hop

/-- A weaker operator stops an operand that binds tighter. -/
theorem Stops.operator (gap : Gap) {op : ArithOp} (h : op.rank < rank) (zs : List Char) :
    Stops rank behind (gap.1 ++ op.char :: zs) := by
  refine .sign gap op.isSpace_char (fun hop => ?_) (by cases op <;> decide) (by cases op <;> decide)
  exact absurd (mem_signs.1 hop) (Nat.not_le.2 h)

/-- Where an operand stops, no operator of its rank is read. -/
theorem misses_tier {a b : ArithOp} (ha : rank ≤ a.rank) (hb : rank ≤ b.rank)
    (h : Stops rank behind c.rest) : Misses (tier a b) c f := by
  refine .orElse (misses_operator (fun x hx hop => ?_) _) (misses_operator (fun x hx hop => ?_) _)
  · exact h.lacks x hx (hop ▸ mem_signs.2 ha)
  · exact h.lacks x hx (hop ▸ mem_signs.2 hb)

/-! ## Operands -/

/-- The parser reads the written expression wherever what follows stops it. -/
def Reads (rank : Nat) (p : Rule (Expr .number)) (w : Written) : Prop :=
  ReadsAs (Stops rank w.text) p w.text w.expr fun index => w.uses index

/-- A decimal is read as a factor. -/
theorem reads_numeral (gap : Gap) (n : Numeral) :
    Reads 2 (factor registry inner) (.numeral gap n) := by
  intro c f zs hc h hzs
  have hword := Text.not_isWord_of_apart hzs.apart (n.last_isWord gap.1)
  have hstop : ∀ y ∈ zs.head?, (y.isDigit || y = '_') = false ∧ y ≠ '.' := by
    refine fun y hy => ⟨Bool.eq_false_iff.2 fun hgo => ?_, (hzs.next y hy).2⟩
    refine Bool.false_ne_true ((hword y hy).symm.trans ?_)
    obtain hdigit | hunderscore := Bool.or_eq_true_iff.1 hgo
    · exact Text.isWord_of_isDigit hdigit
    · rw [of_decide_eq_true hunderscore]
      decide
  rw [Written.text, List.append_assoc] at h
  obtain ⟨x, xs, hn, hparen, hspace⟩ := n.exists_chars
  have hfirst : c.rest = gap.1 ++ x :: (xs ++ zs) := by rw [h, hn, List.cons_append]
  have hnumber : lexeme number c f = .ok n.value (c.skip (gap.1 ++ n.chars).length) f := by
    rw [lexeme_eq hc hfirst hspace,
      Numeral.number_eq n (Cursor.rest_skip_append h) hstop, Cursor.skip_skip,
      List.length_append]
  refine (misses_parenthesized hparen hspace hfirst).orElse_eq (orElse_eq ?_)
  rw [map_eq hnumber]
  exact congrArg (Reply.ok _ _ ·) (Facts.note_nil f).symm

/-- A variable is read as a factor, and its use is noted. -/
theorem reads_name (gap : Gap) (n : Name) :
    Reads 2 (factor registry inner) (.name gap n) := by
  intro c f zs hc h hzs
  obtain ⟨x, xs, hfirst, hn, hword, hdigit⟩ := exists_rest_of_name gap n h
  have hne : ∀ y ∈ ['(', '+', '-'], x ≠ y := by
    have hmark : ['(', '+', '-'].all (!Text.isWord ·) := by decide
    rintro y hy rfl
    simpa [hword] using List.all_eq_true.1 hmark x hy
  refine (misses_parenthesized (hne _ (by decide)) (Text.not_isSpace_of_isWord hword)
    hfirst).orElse_eq ?_
  refine Misses.orElse_eq (Misses.bind ?_ _) (Misses.orElse_eq ?_ ?_)
  · rw [Misses, lexeme_of_name gap n hc h]
    refine misses_number fun y hy => ?_
    rw [Cursor.rest_skip_append hfirst] at hy
    cases hy
    exact ⟨hdigit, hne _ (by decide), hne _ (by decide)⟩
  · exact refuses_call gap n hc h hzs
  · exact reads_variable gap n hc h hzs

/-- In parentheses any sum may stand. -/
theorem reads_parens {gap gap' : Gap} {e : Written} (he : Reads 0 inner.sum e) :
    Reads 2 (factor registry inner) (.parens gap e gap') := by
  intro c f zs hc h hzs
  exact orElse_eq (he.parenthesized (fun zs => .close gap' zs) hc h hzs)

/-! ## Chains -/

/-- An operator is read with the gap before it. -/
theorem reads_tier {a b op : ArithOp} (hop : op = a ∨ op = b) (gap : Gap) :
    ReadsAs (fun _ => True) (tier a b) (gap.1 ++ [op.char]) (.arith op) fun _ => [] := by
  intro c f zs hc h _
  rw [tier_eq hc hop (h.trans (List.append_assoc ..)), Facts.note_nil]

/-- Operands joined by the operators of one rank are read if operands are that bind tighter. -/
theorem reads_chain {a b : ArithOp} (ha : rank = a.rank) (hb : rank = b.rank)
    (hop : ∀ op : ArithOp, op.rank = rank → op = a ∨ op = b) {operand : Rule (Expr .number)}
    {depth : Nat}
    (hoperand : ∀ w : Written, w.Enough → w.depth ≤ depth → rank < w.rank →
      Reads (rank + 1) operand w)
    {w : Written} (hw : w.Enough) (hd : w.depth ≤ depth) (hrank : rank ≤ w.rank) :
    Reads rank (chainLeft operand (tier a b)) w := by
  -- Up to the end of a written expression the chain takes it for what is accumulated.
  have hchain : Gathers (Stops (rank + 1) w.text) operand (tier a b) w.text w.expr
      fun index => w.uses index := by
    induction w with
    | numeral gap n => exact (hoperand _ hw hd (ha ▸ a.rank_lt)).gathers
    | name gap n => exact (hoperand _ hw hd (ha ▸ a.rank_lt)).gathers
    | parens gap e gap' => exact (hoperand _ hw hd (ha ▸ a.rank_lt)).gathers
    | arith op l gap r ihl _ =>
      rcases Nat.lt_or_eq_of_le hrank with hlt | hrank
      · exact (hoperand _ hw hd hlt).gathers
      · obtain ⟨hl, hr, hlw, hrw⟩ := hw
        obtain ⟨hld, hrd⟩ := Nat.max_le.1 hd
        have hrank : rank = op.rank := hrank
        have hright : ReadsAs (Stops (rank + 1) (Written.arith op l gap r).text) operand r.text
            r.expr fun index => r.uses index :=
          (hoperand r hrw hrd (hrank ▸ hr)).mono fun zs hzs => hzs.of_append r.ne_nil
        refine (ihl hlw hld (hrank ▸ hl)).next (reads_tier (hop op hrank.symm) gap) hright
          (List.append_ne_nil_of_right_ne_nil _ (List.cons_ne_nil _ _)) (fun zs _ => ?_)
          fun _ _ => trivial
        rw [List.append_assoc]
        exact .operator gap (hrank ▸ Nat.lt_succ_self _) _
  exact hchain.reads (fun zs hzs => hzs.mono (signs_subset (Nat.le_succ rank)))
    fun c f => misses_tier (Nat.le_of_eq ha) (Nat.le_of_eq hb)

/-! ## The grammar -/

/-- Sums are read if they are in parentheses. -/
theorem reads_sum_of_nested {depth : Nat}
    (hinner : ∀ w : Written, w.Enough → w.depth < depth → Reads 0 inner.sum w)
    {w : Written} (hw : w.Enough) (hd : w.depth ≤ depth) : Reads 0 (sum registry inner) w := by
  have hfactor (w : Written) (hw : w.Enough) (hd : w.depth ≤ depth) (hrank : 1 < w.rank) :
      Reads 2 (factor registry inner) w := by
    cases w with
    | numeral gap n => exact reads_numeral gap n
    | name gap n => exact reads_name gap n
    | arith op l gap r => exact absurd op.rank_lt (Nat.not_lt.2 hrank)
    | parens gap e gap' => exact reads_parens (hinner e hw hd)
  have hproduct (w : Written) (hw : w.Enough) (hd : w.depth ≤ depth) (hrank : 0 < w.rank) :
      Reads 1 (product registry inner) w :=
    reads_chain (a := .multiply) (b := .divide) rfl rfl
      (fun op hop => by cases op <;> simp_all [ArithOp.rank]) hfactor hw hd hrank
  exact reads_chain (a := .add) (b := .subtract) rfl rfl
    (fun op hop => by cases op <;> simp_all [ArithOp.rank]) hproduct hw hd (Nat.zero_le _)

/-- With rules nested as deep as parentheses are, sums are read. -/
theorem reads_sum {depth : Nat} {w : Written} (hw : w.Enough) (hd : w.depth ≤ depth) :
    Reads 0 (sum registry (.upTo registry depth)) w := by
  induction depth generalizing w with
  | zero => exact reads_sum_of_nested (fun _ _ h => absurd h (Nat.not_lt_zero _)) hw hd
  | succ depth ih => exact reads_sum_of_nested (fun v hv hlt => ih hv (Nat.le_of_lt_succ hlt)) hw hd

/-- What is written in arithmetic, with as many parentheses as are needed, is read as it is meant:
    `*` and `/` bind tighter than `+` and `-`, all of them from left to right. The whole source is
    taken, the simplified expression is answered, and every variable is noted where it stands. No
    line may be indented less than the first one. -/
theorem math_written (registry : Registry) {w : Written} (hw : w.Enough) (tabSize : Nat) (f : Facts)
    (hlines : ∀ l ∈ Layout.lines w.text, ¬ l.text.all Text.isBlank →
      (Cursor.ofChars w.text tabSize).reference.column ≤ leadingColumn (max tabSize 1) 1 l.text) :
    ∃ c, complete registry (math registry) (.ofChars w.text tabSize) f =
        .ok w.expr.simplify c { f with uses := f.uses ++ w.uses 0 } ∧
      c.rest = [] ∧ c.index = byteSize w.text := by
  have hrest : (Cursor.ofChars w.text tabSize).rest = w.text ++ [] := (List.append_nil _).symm
  refine ⟨(Cursor.ofChars w.text tabSize).skip w.text.length, ?_,
    Cursor.rest_skip_append hrest, ?_⟩
  · have hsum : Reads 0 (sum registry (.upTo registry (byteSize w.text))) w :=
      reads_sum hw w.depth_le
    exact map_eq (hsum (Cursor.level_ofChars hlines) hrest .nil)
  · rw [Cursor.index_skip_append hrest]
    exact Nat.zero_add _

/-- A quotient over two lines, with a signed decimal behind a minus. -/
def quotient : Written :=
  let none : Gap := ⟨[], nofun⟩
  let space : Gap := ⟨[' '], List.all_eq_true.1 (by decide)⟩
  let line : Gap := ⟨['\r', '\n', '\t'], List.all_eq_true.1 (by decide)⟩
  let x : Name := ⟨['x'], List.all_eq_true.1 (by decide), ⟨'x', rfl, by decide⟩, by decide⟩
  let y : Name := ⟨['y'], List.all_eq_true.1 (by decide), ⟨'y', rfl, by decide⟩, by decide⟩
  let two : Digits := ⟨['2', '_'], by decide, List.all_eq_true.1 (by decide)⟩
  let five : Digits := ⟨['5'], by decide, List.all_eq_true.1 (by decide)⟩
  .arith .divide
    (.arith .multiply (.numeral none ⟨Option.none, two, Option.none, nofun⟩) space
      (.parens space
        (.arith .subtract (.name none x) space
          (.numeral line ⟨some '-', two, some five, by rintro _ ⟨⟩; exact .inr rfl⟩)) none))
    space (.name none y)

/-- A quotient over two lines, with underscores in its decimals, is read. -/
theorem math_written_quotient :
    quotient.text = "2_ * (x -\r\n\t-2_.5) /y".toList ∧
      quotient.uses 0 = [⟨6, .typed "x" .number⟩, ⟨20, .typed "y" .number⟩] ∧
      ∃ c, complete (fun _ => none) (math fun _ => none) (.ofChars quotient.text 4) .empty =
          .ok quotient.expr.simplify c { Facts.empty with uses := quotient.uses 0 } ∧
        c.rest = [] ∧ c.index = byteSize quotient.text :=
  ⟨by decide, by decide, math_written (fun _ => none) (by decide) 4 .empty (by decide +kernel)⟩

end Grammar

end Dialogue
