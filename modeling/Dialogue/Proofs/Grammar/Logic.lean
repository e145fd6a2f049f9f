import Dialogue.Proofs.Grammar.Attempt

/-!
# Logic

A formula that is written with enough parentheses is read as it is meant (`logic_written`).

A comparison of numbers is read as such after the attempts on its operands have come to nothing
(`reads_compare`). What stands alone is read as a truth value at once, and operands joined by
operators of one rank are read by a chain of operands that bind tighter (`reads_operators`), like in
arithmetic. In parentheses and behind a negation the rules are nested one deeper, so all of it is
shown by induction on the depth (`reads_unary`).
-/

namespace Dialogue

open Dialogue.Parser

/-- A decimal is not a bare name. -/
theorem Written.isBare_eq_false {w : Written} (h : w.hasNumeral) : w.isBare = false := by
  induction w with
  | numeral gap n => rfl
  | name gap n => cases h
  | arith op l gap r => rfl
  | parens gap e gap' ih => exact ih h

namespace CompareSign

/-- The sign of a comparison starts with one of its marks. -/
theorem exists_first (s : CompareSign) :
    ∃ x xs, s.chars = x :: xs ∧ Text.isSpace x = false ∧ x ∈ Grammar.compareMarks := by
  cases s with
  | is => exact ⟨'i', ['s'], rfl, rfl, by decide⟩
  | equal => exact ⟨'=', ['='], rfl, rfl, by decide⟩
  | isNot blanks _ _ => exact ⟨'i', 's' :: (blanks ++ "not".toList), rfl, rfl, by decide⟩
  | unequal => exact ⟨'!', ['='], rfl, rfl, by decide⟩

end CompareSign

namespace Formula

/-- Behind white space comes no equality sign. -/
theorem exists_first (w : Formula) :
    ∃ (gap : Gap) (x : Char) (xs : List Char), w.text = gap.1 ++ x :: xs ∧ x ≠ '=' := by
  induction w with
  | truth gap b => cases b <;> exact ⟨gap, _, _, rfl, by decide⟩
  | name gap n =>
    obtain ⟨x, xs, hn, hword, -⟩ := n.exists_cons
    refine ⟨gap, x, xs, by rw [text, hn], ?_⟩
    rintro rfl
    exact absurd hword (by decide)
  | compare l gap sign r _ =>
    obtain ⟨gap', x, xs, htext, -, hx⟩ := l.exists_first
    refine ⟨gap', x, xs ++ (gap.1 ++ sign.chars) ++ r.text, ?_, fun heq => hx (by simp [heq])⟩
    rw [text, htext]
    simp only [List.append_assoc, List.cons_append]
  | not gap word e _ =>
    have hall : ∀ w ∈ negations, ∃ x xs, w.toList = x :: xs ∧ x ≠ '=' := by
      simp only [negations, List.forall_mem_cons]
      exact ⟨⟨'n', ['o', 't'], rfl, by decide⟩, ⟨'!', [], rfl, by decide⟩,
        List.forall_mem_nil _⟩
    obtain ⟨x, xs, hword, hx⟩ := hall _ word.2
    refine ⟨gap, x, xs ++ e.text, ?_, hx⟩
    rw [text, hword, List.append_assoc, List.cons_append]
  | logic op l gap word r ihl _ =>
    obtain ⟨gap', x, xs, htext, hx⟩ := ihl
    refine ⟨gap', x, xs ++ (gap.1 ++ word.1.toList) ++ r.text, ?_, hx⟩
    rw [text, htext]
    simp only [List.append_assoc, List.cons_append]
  | parens gap e gap' _ =>
    refine ⟨gap, '(', e.text ++ gap'.1 ++ [')'], ?_, by decide⟩
    rw [text]
    simp only [List.append_assoc, List.cons_append, List.nil_append]

/-- A formula has a first character. -/
theorem ne_nil (w : Formula) : w.text ≠ [] := by
  obtain ⟨gap, x, xs, htext, -⟩ := w.exists_first
  rw [htext]
  exact List.append_ne_nil_of_right_ne_nil _ (List.cons_ne_nil _ _)

end Formula

namespace Grammar

variable {c : Cursor} {f : Facts} {gap : Gap} {zs : List Char} {set behind : List Char}
  {registry : Registry} {inner : Nested} {depth : Nat}

/-! ## Comparison signs -/

/-- The sign of a comparison ends an operand. -/
theorem Ends.compareSign (gap : Gap) (s : CompareSign) (hset : ∀ x ∈ compareMarks, x ∉ set)
    (hapart : Text.apart behind (gap.1 ++ s.chars)) (zs : List Char) :
    Ends set behind (gap.1 ++ s.chars ++ zs) := by
  obtain ⟨x, xs, hs, hspace, hmark⟩ := s.exists_first
  have hnext : x ≠ '(' ∧ x ≠ '.' := by
    constructor <;> (rintro rfl; exact absurd hmark (by decide))
  exact .word gap hs hspace (hset x hmark) hnext hapart zs

/-- Where no word is next the second word of a sign of two words is missing. -/
theorem misses_not (h : NoWord (c.rest.dropWhile Text.isSpace)) {α : Type} (a : α) :
    Misses (do let _ ← blanks1; let _ ← keyword "not"; return a : Rule α) c f := by
  cases hrun : c.rest.takeWhile Text.isBlank with
  | nil => exact Misses.bind ⟨_, _, _, by rw [blanks1, takeWhile1, hrun]⟩ _
  | cons x xs =>
    refine .after (takeWhile1_of_run hrun) (Misses.bind ?_ _)
    rw [← hrun]
    refine NoWord.misses_keyword ?_ (by decide)
    exact Cursor.rest_skipWhile .. ▸ h.dropWhile_isBlank

/-- A sign of two words is read. -/
theorem isNot_eq {blanks : List Char} (hne : blanks ≠ []) (hblank : ∀ x ∈ blanks, Text.isBlank x)
    (h : c.rest = ("is".toList ++ blanks ++ "not".toList) ++ zs)
    (hzs : ∀ x ∈ zs.head?, Text.isWord x = false) {α : Type} (a : α) :
    (do let _ ← keyword "is"; let _ ← blanks1; let _ ← keyword "not"; return a : Rule α) c f =
      .ok a (c.skip ("is".toList ++ blanks ++ "not".toList).length) f := by
  have hrest : c.rest = "is".toList ++ (blanks ++ ("not".toList ++ zs)) := by
    rw [h, List.append_assoc, List.append_assoc]
  have hbehind : (c.skip 2).rest = blanks ++ ("not".toList ++ zs) := Cursor.rest_skip_append hrest
  obtain ⟨y, ys, rfl⟩ := List.exists_cons_of_ne_nil hne
  have hrun : (c.skip 2).rest.takeWhile Text.isBlank = y :: ys := by
    rw [hbehind, List.takeWhile_append_of_pos hblank]
    exact List.append_nil _
  have his : keyword "is" c f = .ok "is" (c.skip 2) f := by
    refine keyword_eq hrest ?_
    rintro _ ⟨⟩
    have hspace := Text.isSpace_of_isBlank (hblank y List.mem_cons_self)
    exact Bool.eq_false_iff.2 fun hword =>
      Bool.false_ne_true ((Text.not_isSpace_of_isWord hword).symm.trans hspace)
  have hnot : keyword "not" ((c.skip 2).skip (y :: ys).length) f =
      .ok "not" (((c.skip 2).skip (y :: ys).length).skip 3) f :=
    keyword_eq (Cursor.rest_skip_append hbehind) hzs
  refine ((bind_eq his).trans ((bind_eq (takeWhile1_of_run hrun)).trans (bind_eq hnot))).trans ?_
  rw [Cursor.skip_skip, Cursor.skip_skip, List.length_append, List.length_append]
  rfl

/-- A comparison sign is read where no word of it follows. -/
theorem reads_compareSign (gap : Gap) (s : CompareSign) :
    ReadsAs (fun zs => Text.apart s.chars zs ∧ NoWord (zs.dropWhile Text.isSpace)) compareSign
      (gap.1 ++ s.chars) s.op fun _ => [] := by
  intro c f zs hc h hzs
  obtain ⟨hapart, hnoWord⟩ := hzs
  obtain ⟨x, xs, hs, hspace, -⟩ := s.exists_first
  have hrest := Cursor.rest_skip_append (h.trans (List.append_assoc ..))
  have hfirst : c.rest = gap.1 ++ x :: (xs ++ zs) := by
    rw [h, hs, List.append_assoc, List.cons_append]
  rw [compareSign, lexeme_eq hc hfirst hspace, Facts.note_nil, List.length_append,
    ← Cursor.skip_skip]
  generalize c.skip gap.1.length = d at hrest
  -- Of the spellings only those are tried with success that start like the sign.
  have hws : wellSpelled ["is", "==", "!="] := by decide
  have hother {w : String} (hw : w ∈ ["is", "==", "!="]) (hne : w.toList.head? ≠ some x) :
      Misses (symbol w) d f := by
    refine misses_symbol hws hw fun y hy => ?_
    rw [hrest, hs] at hy
    cases hy
    exact hne
  have his := hother (w := "is") (by decide)
  have hunequal := hother (w := "!=") (by decide)
  cases s with
  | is =>
    cases hs
    have hword : keyword "is" d f = .ok "is" (d.skip 2) f :=
      keyword_eq hrest (Text.not_isWord_of_apart hapart ⟨'s', rfl, by decide⟩)
    have hnot : NoWord ((d.skip 2).rest.dropWhile Text.isSpace) :=
      (Cursor.rest_skip_append hrest).symm ▸ hnoWord
    refine (Misses.after hword (misses_not hnot _)).orElse_eq ?_
    exact ((hunequal (by decide)).bind _).orElse_eq (orElse_eq (map_eq hword))
  | equal =>
    cases hs
    refine ((his (by decide)).bind _).orElse_eq ?_
    refine ((hunequal (by decide)).bind _).orElse_eq ?_
    exact ((his (by decide)).bind _).orElse_eq (map_eq (tag_eq hrest))
  | isNot blanks hne hblank =>
    have hlast : ∃ y ∈ ("is".toList ++ blanks ++ "not".toList).getLast?, Text.isWord y :=
      Text.exists_last_of_isWord (by decide) (List.all_eq_true.1 (by decide)) _
    exact orElse_eq (isNot_eq hne hblank hrest (Text.not_isWord_of_apart hapart hlast) _)
  | unequal =>
    cases hs
    refine ((his (by decide)).bind _).orElse_eq ?_
    exact orElse_eq (map_eq (tag_eq hrest))

/-! ## Formulas -/

/-- An operator of logic is read with the gap before it. -/
theorem reads_operator (op : LogicOp) (gap : Gap) {w : String} (hw : w ∈ op.spellings) :
    ReadsAs (fun zs => Text.apart w.toList zs) (operator (.logic op) op.spellings)
      (gap.1 ++ w.toList) (Expr.logic op) fun _ => [] := by
  intro c f zs hc h hzs
  rw [operator_of_mem (wellSpelled_spellings op) hw hc h hzs, Facts.note_nil]

/-- The parser reads the formula wherever what follows does not go on with it. -/
def ReadsFormula (rank : Nat) (p : Rule (Expr .boolean)) (w : Formula) : Prop :=
  ReadsAs (Halts rank w.text) p w.text w.expr fun i => w.uses i

/-! ## Comparisons of numbers -/

/-- What is not a name alone is not taken for one: there is no name, or an arithmetic sign is behind
    it. -/
theorem variableName_of_ne_name {w : Written} (hname : ∀ gap n, w ≠ .name gap n) (hc : c.Level)
    (h : c.rest = w.text ++ zs) (hzs : Ends [] w.text zs) :
    Misses (lexeme variableName) c f ∨ ∃ a c₁ c₂, lexeme variableName c f = .ok a c₁ f ∧
      arithmeticSign c₁ f = .ok () c₂ f := by
  have hhead := rest_head h
  by_cases hfirst : ∃ gap n, w.head = .name gap n
  · obtain ⟨gap, n, hn⟩ := hfirst
    have hends := hzs.of_head nofun
    rw [hn, Written.text] at hhead hends
    rcases w.head_cases with ⟨heq, -⟩ | ⟨-, gap', op, xs, htail⟩
    · exact absurd (heq.symm.trans hn) (hname gap n)
    · have hrest := Cursor.rest_skip_append (hhead.trans (List.append_assoc ..))
      have hread := variableName_eq (j := f) hrest (hends.name gap n)
      rw [← lexeme_of_name (p := variableName) gap n hc hhead, Cursor.skip_skip,
        ← List.length_append] at hread
      have hbehind := Cursor.rest_skip_append hhead
      rw [htail, List.append_assoc, List.cons_append] at hbehind
      obtain ⟨c₂, hsign⟩ := arithmeticSign_eq (f := f) (hc.skip _) hbehind
      exact .inr ⟨_, _, c₂, hread, hsign⟩
  · refine .inl (misses_lexeme (misses_variableName (Nameless.misses ?_)))
    exact hhead ▸ Written.nameless w.rank_head (fun gap n hn => hfirst ⟨gap, n, hn⟩) _

section

variable {l r : Written} {sign : CompareSign} (hc : c.Level)
  (h : c.rest = l.text ++ ((gap.1 ++ sign.chars) ++ (r.text ++ zs)))
  (hl : Ends [] l.text ((gap.1 ++ sign.chars) ++ (r.text ++ zs)))
  (hsign : Text.apart sign.chars (r.text ++ zs) ∧ NoWord ((r.text ++ zs).dropWhile Text.isSpace))
  (hr : Ends [] r.text zs)

include hc h hsign

/-- The sign of a comparison is read behind its left operand. -/
theorem compareSign_eq (f : Facts) : compareSign (c.skip l.text.length) f =
    .ok sign.op ((c.skip l.text.length).skip (gap.1 ++ sign.chars).length) f := by
  rw [reads_compareSign gap sign (hc.skip _) (Cursor.rest_skip_append h) hsign, Facts.note_nil]

include hl hr

/-- Two names are not compared: one of the operands is none. -/
theorem misses_variableComparison_of_numeric (hnumeric : l.hasNumeral || r.hasNumeral) :
    Misses variableComparison c f := by
  by_cases hname : ∃ gap n, l = .name gap n
  · obtain ⟨gap', n, rfl⟩ := hname
    have hrname : ∀ gap n, r ≠ .name gap n := by
      rintro gap n rfl
      cases hnumeric
    have hrest := Cursor.rest_skip_append (h.trans (List.append_assoc ..))
    have hfirst := variableName_eq (j := f) hrest (hl.name gap' n)
    have hskip : (c.skip gap'.1.length).skip n.chars.length =
        c.skip (Written.name gap' n).text.length := by
      rw [Cursor.skip_skip, Written.text, List.length_append]
    rw [hskip] at hfirst
    have hop := compareSign_eq hc h hsign f
    have hbehind := Cursor.rest_skip_append (Cursor.rest_skip_append h)
    rw [Misses, variableComparison, ← lexeme, lexeme_of_name gap' n hc h]
    refine Misses.after (rfl : position _ f = .ok _ _ f) (.after hfirst (.after hop ?_))
    obtain hmiss | ⟨a, c₁, c₂, hread, harith⟩ :=
      variableName_of_ne_name (f := f) hrname ((hc.skip _).skip _) hbehind hr
    · exact hmiss.bind _
    · exact .after hread ((misses_notFollowedBy harith _).bind _)
  · exact refuses_variableComparison (fun gap n hn => hname ⟨gap, n, hn⟩) hc h hl

/-- Two truth values are not compared: one of the operands is none, or goes on behind an arithmetic
    sign. -/
theorem booleanReading_of_numeric
    (hboolean : GuessesOperands registry inner depth)
    (hle : l.Enough) (hre : r.Enough) (hld : l.depth ≤ depth) (hrd : r.depth ≤ depth)
    (hnumeric : l.hasNumeral || r.hasNumeral) :
    ∃ c₁ f₁, booleanReading registry inner c f = .ok none c₁ f₁ := by
  cases hbare : l.isBare with
  | false => exact booleanReading_of_not_bare hboolean hle hld hbare hc h hl
  | true =>
    -- The first operand is taken for a truth value, so it is the second one that has a decimal.
    have hrbare : r.isBare = false := by
      refine Written.isBare_eq_false ((Bool.or_eq_true_iff.1 hnumeric).resolve_left fun hl => ?_)
      rw [Written.isBare_eq_false hl] at hbare
      cases hbare
    obtain ⟨e, uses, he⟩ := (hboolean l hle hld (Written.rank_of_isBare hbare)).bare hbare
    have hop := compareSign_eq hc h hsign (f.note (uses c.index))
    have hbehind := Cursor.rest_skip_append (Cursor.rest_skip_append h)
    obtain hmiss | ⟨e', c₁, f₁, he', hc₁, gap, op, xs, hrest⟩ :=
      boolean_of_not_bare hboolean (f := f.note (uses c.index)) hre hrd hrbare
        ((hc.skip _).skip _) hbehind hr
    · exact ⟨_, _, booleanReading_half (he hc h hl) hop hmiss⟩
    · obtain ⟨c₂, harith⟩ := arithmeticSign_eq (f := f₁) hc₁ hrest
      exact ⟨_, _, (booleanReading_compared (he hc h hl) hop he').trans
        (unlessArithmetic_of_ok harith)⟩

end

section

variable (hsum : ∀ e : Written, e.Enough → e.depth ≤ depth → Reads 0 (sum registry inner) e)
  {l r : Written} {sign : CompareSign} {numeric : l.hasNumeral || r.hasNumeral}
  (hw : (Formula.compare l gap sign r numeric).Enough)
  (hapart : (Formula.compare l gap sign r numeric).Apart)
  (hd : (Formula.compare l gap sign r numeric).depth ≤ depth)

include hsum hw hapart hd

/-- Two numbers are compared. -/
theorem reads_comparisonOf :
    ReadsFormula 3 (comparisonOf (sum registry inner)) (.compare l gap sign r numeric) := by
  obtain ⟨hld, hrd⟩ := Nat.max_le.1 hd
  have hsigns : ∀ x ∈ compareMarks, x ∉ signs 0 := fun x hx hsign => by
    obtain ⟨op, rfl⟩ := exists_of_mem_signs hsign
    exact not_mem_compareMarks op hx
  have hright := hsum r hw.2 hrd
  have hsecond := (reads_compareSign gap sign).bind
    (q := fun op => sum registry inner >>= fun b => pure (Expr.compare .number op l.expr b))
    hright.map fun zs (hzs : Stops 0 r.text zs) =>
      ⟨(Text.apart_append_right r.ne_nil).trans hapart.2,
        noWord_written (hzs.mono (List.forall_mem_nil _))⟩
  have hread := (hsum l hw.1 hld).bind (q := fun a => compareSign >>= fun op =>
    sum registry inner >>= fun b => pure (Expr.compare .number op a b)) hsecond fun zs _ => by
      rw [List.append_assoc]
      exact .compareSign gap sign hsigns hapart.1 _
  have hfits := hread.mono fun zs
      (hzs : Halts 3 (l.text ++ (gap.1 ++ sign.chars) ++ r.text) zs) =>
    (hzs.of_append r.ne_nil).mono signs_subset_marks
  simpa only [ReadsFormula, comparisonOf, Formula.text, Formula.expr, Formula.uses,
    List.append_assoc, byteSize_append, Nat.add_assoc, List.nil_append] using hfits

/-- A relation of numbers is read as such. -/
theorem reads_compare
    (hboolean : GuessesOperands registry inner depth) :
    ReadsFormula 3 (relation registry inner) (.compare l gap sign r numeric) := by
  obtain ⟨hld, hrd⟩ := Nat.max_le.1 hd
  intro c f zs hc hrest hzs
  have h : c.rest = l.text ++ (gap.1 ++ sign.chars ++ (r.text ++ zs)) := by
    rw [hrest, Formula.text]
    simp only [List.append_assoc]
  have hl : Ends [] l.text (gap.1 ++ sign.chars ++ (r.text ++ zs)) :=
    .compareSign gap sign (fun _ _ => List.not_mem_nil) hapart.1 _
  have hr : Ends [] r.text zs := (hzs.of_append r.ne_nil).mono (List.forall_mem_nil _)
  have hsign : Text.apart sign.chars (r.text ++ zs) ∧
      NoWord ((r.text ++ zs).dropWhile Text.isSpace) :=
    ⟨(Text.apart_append_right r.ne_nil).trans hapart.2, noWord_written hr⟩
  -- Neither names nor truth values are compared, so the numbers are.
  obtain ⟨c₁, f₁, hreading⟩ := booleanReading_of_numeric (f := f) hc h hl hsign hr hboolean hw.1
    hw.2 hld hrd numeric
  rw [relation_of_misses (misses_variableComparison_of_numeric hc h hl hsign hr numeric),
    insteadOf_of_none hreading]
  exact orElse_eq (reads_comparisonOf hsum hw hapart hd hc hrest hzs)

end

/-- A comparison of numbers is no negation. -/
theorem refuses_negation_compare {l r : Written} {sign : CompareSign}
    (hapart : Text.apart l.text (gap.1 ++ sign.chars)) :
    Refuses (Ends set (l.text ++ (gap.1 ++ sign.chars) ++ r.text)) (negation inner)
      (l.text ++ (gap.1 ++ sign.chars) ++ r.text) := by
  intro c f zs hc h _
  have hrest : c.rest = l.text ++ (gap.1 ++ sign.chars ++ (r.text ++ zs)) := by
    rw [h]
    simp only [List.append_assoc]
  exact refuses_negation_written hc hrest
    (.compareSign gap sign (fun _ _ => List.not_mem_nil) hapart _)

/-! ## Operands -/

/-- Truth values are spelled with word characters. -/
theorem isWord_truthWord (b : Bool) : ∀ y ∈ (truthWord b).toList, Text.isWord y :=
  List.all_eq_true.1 (by cases b <;> decide)

/-- A word is the run of the characters of names. -/
theorem takeWhile_truthWord {b : Bool}
    (h : Ends set (gap.1 ++ (truthWord b).toList) zs) :
    ((truthWord b).toList ++ zs).takeWhile Text.isWord = (truthWord b).toList := by
  have hword := isWord_truthWord b
  have hlast := Text.exists_last_of_isWord (by cases b <;> decide) hword gap.1
  rw [takeWhile_append_of_head (Text.not_isWord_of_apart h.apart hlast), takeWhile_of_all hword]

/-- Behind its gap a truth value is ahead. -/
theorem dropWhile_truthWord {b : Bool} : (gap.1 ++ (truthWord b).toList ++ zs).dropWhile
    Text.isSpace = (truthWord b).toList ++ zs := by
  cases b <;> exact (congrArg _ (List.append_assoc ..)).trans (dropWhile_gap rfl)

/-- A truth value is read. -/
theorem reads_truth (gap : Gap) (b : Bool) :
    ReadsAs (Ends set (gap.1 ++ (truthWord b).toList)) (boolean registry inner)
      (gap.1 ++ (truthWord b).toList) (.literal (k := .boolean) b) fun _ => [] := by
  intro c f zs hc h hzs
  have hword := isWord_truthWord b
  have hlast := Text.exists_last_of_isWord (by cases b <;> decide) hword gap.1
  have hrest := Cursor.rest_skip_append (h.trans (List.append_assoc ..))
  obtain ⟨x, xs, hx, hspace, hparen⟩ :
      ∃ x xs, (truthWord b).toList = x :: xs ∧ Text.isSpace x = false ∧ x ≠ '(' := by
    cases b
    · exact ⟨'f', ['a', 'l', 's', 'e'], rfl, rfl, by decide⟩
    · exact ⟨'t', ['r', 'u', 'e'], rfl, rfl, by decide⟩
  have hfirst : c.rest = gap.1 ++ x :: (xs ++ zs) := by
    rw [h, hx, List.append_assoc, List.cons_append]
  have hread : lexeme (keyword (truthWord b)) c f =
      .ok (truthWord b) (c.skip (gap.1 ++ (truthWord b).toList).length) f := by
    rw [lexeme_eq hc hfirst hspace, keyword_eq hrest (Text.not_isWord_of_apart hzs.apart hlast),
      Cursor.skip_skip, List.length_append, String.length_toList]
  rw [Facts.note_nil]
  refine (misses_parenthesized hparen hspace hfirst).orElse_eq ?_
  cases b with
  | true => exact orElse_eq (map_eq hread)
  | false =>
    have htrue : Misses (lexeme (keyword "true")) c f := by
      refine misses_lexeme (misses_keyword (by decide) ?_)
      rw [Cursor.rest_skipWhile, h, dropWhile_truthWord, takeWhile_truthWord hzs]
      decide
    exact (htrue.bind _).orElse_eq (orElse_eq (map_eq hread))

/-- A truth value is no comparison of two variables. -/
theorem refuses_variableComparison_truth (gap : Gap) (b : Bool) :
    Refuses (Ends set (gap.1 ++ (truthWord b).toList)) variableComparison
      (gap.1 ++ (truthWord b).toList) := by
  intro c f zs hc h hzs
  have hreserved : truthWord b ∈ reserved := by cases b <;> decide
  refine misses_lexeme (.after (rfl : position _ f = .ok _ _ f) ((misses_variableName ?_).bind _))
  refine misses_unreserved_of_word hreserved ?_
  rw [Cursor.rest_skipWhile, h, dropWhile_truthWord, takeWhile_truthWord hzs]

/-- A truth value is no negation. -/
theorem refuses_negation_truth (gap : Gap) (b : Bool) :
    Refuses (Ends set (gap.1 ++ (truthWord b).toList)) (negation inner)
      (gap.1 ++ (truthWord b).toList) := by
  intro c f zs hc h hzs
  refine misses_negation ?_ ?_
  · rw [h, dropWhile_truthWord, takeWhile_truthWord hzs]
    cases b <;> decide
  · rw [h, dropWhile_truthWord]
    cases b <;> (rintro _ ⟨⟩; decide)

/-- A name is no negation. -/
theorem refuses_negation_name (gap : Gap) (n : Name) :
    Refuses (Ends set (gap.1 ++ n.chars)) (negation inner) (gap.1 ++ n.chars) := by
  intro c f zs hc h hzs
  refine misses_negation ?_ ?_
  · rw [h]
    exact noWord_of_text gap n hzs _ (by decide)
  · obtain ⟨x, xs, hrest, -, hword, -⟩ := exists_rest_of_name gap n h
    rw [hrest, dropWhile_gap (Text.not_isSpace_of_isWord hword)]
    rintro _ ⟨⟩ rfl
    exact absurd hword (by decide)

/-- Parentheses do not start a comparison of two variables. -/
theorem misses_variableComparison_paren {xs : List Char} (h : c.rest = gap.1 ++ '(' :: xs) :
    Misses variableComparison c f := by
  refine Nameless.misses_variableComparison ?_
  rw [Nameless, h, dropWhile_gap rfl]
  rintro _ ⟨⟩
  decide

/-- Parentheses do not start a negation. -/
theorem misses_negation_paren {xs : List Char} (h : c.rest = gap.1 ++ '(' :: xs) :
    Misses (negation inner) c f := by
  refine misses_negation ?_ ?_
  · rw [h, dropWhile_gap rfl, List.takeWhile_cons_of_neg (by decide)]
    decide
  · rw [h, dropWhile_gap rfl]
    rintro _ ⟨⟩
    decide

/-! ## Negations -/

/-- A negation is read where no equality sign follows. -/
theorem reads_not (gap : Gap) {w : String} (hw : w ∈ negations) :
    ReadsAs (fun zs => Text.apart w.toList zs ∧ ∀ x ∈ zs.head?, x ≠ '=')
      (lexeme (keyword "not" <|> tag "!" <* notFollowedBy (char '=') "'!'"))
      (gap.1 ++ w.toList) w fun _ => [] := by
  intro c f zs hc h hzs
  obtain ⟨hapart, hequal⟩ := hzs
  have hws : wellSpelled negations := by decide
  obtain ⟨x, xs, hx, hspace⟩ := exists_first hws hw
  have hrest := Cursor.rest_skip_append (h.trans (List.append_assoc ..))
  have hfirst : c.rest = gap.1 ++ x :: (xs ++ zs) := by
    rw [h, hx, List.append_assoc, List.cons_append]
  have hread := symbol_eq (j := f) hws hw hrest hapart
  rw [lexeme_eq hc hfirst hspace, Facts.note_nil, List.length_append, ← Cursor.skip_skip,
    String.length_toList]
  simp only [negations, List.mem_cons, List.not_mem_nil, or_false] at hw
  -- The sign is tried behind the word, and it is none if it starts an inequality.
  obtain rfl | rfl := hw
  · exact orElse_eq hread
  · have hnot : Misses (keyword "not") (c.skip gap.1.length) f := by
      refine misses_symbol (w := "not") hws (by decide) fun y hy => ?_
      rw [hrest] at hy
      cases hy
      decide
    have hchar : Misses (char '=') ((c.skip gap.1.length).skip 1) f := by
      refine misses_char fun y hy => hequal y ?_
      rwa [← Cursor.rest_skip_append hrest]
    exact hnot.orElse_eq ((bind_eq hread).trans (bind_eq (hchar.notFollowedBy _)))

/-- A negation is read if its operand is, one deeper. -/
theorem reads_negation {e : Formula} (gap : Gap) {w : String} (hw : w ∈ negations)
    (hapart : Text.apart w.toList e.text) (h : ReadsFormula 3 inner.unary e) :
    ReadsAs (Halts 3 e.text) (negation inner) (gap.1 ++ w.toList ++ e.text) (.not e.expr)
      fun i => e.uses (i + byteSize (gap.1 ++ w.toList)) := by
  refine ReadsAs.bind (q := fun _ => inner.unary >>= fun a => pure (Expr.not a)) (reads_not gap hw)
    h.map fun zs _ => ⟨(Text.apart_append_right e.ne_nil).trans hapart, ?_⟩
  obtain ⟨gap', x, xs, htext, hx⟩ := e.exists_first
  rw [htext, List.append_assoc, List.cons_append]
  obtain ⟨cs, hcs⟩ := gap'
  cases cs with
  | nil =>
    rintro _ ⟨⟩
    exact hx
  | cons y ys =>
    rintro _ ⟨⟩ rfl
    exact absurd (hcs _ List.mem_cons_self) (by decide)

/-! ## Truth values -/

/-- What is not negated is read as a relation. -/
theorem reads_unary_of_relation {fits : List Char → Prop} {text : List Char} {e : Expr .boolean}
    {uses : Nat → List (Found Use)} (hnegation : Refuses fits (negation inner) text)
    (h : ReadsAs fits (relation registry inner) text e uses) :
    ReadsAs fits (unary registry inner) text e uses :=
  fun _ _ _ hc hrest hzs => (hnegation hc hrest hzs).orElse_eq (h hc hrest hzs)

/-- Operands are read if what is in their parentheses and behind their negations is. -/
theorem reads_unary_of_nested
    (hdisjunction : ∀ e : Formula, e.Enough → e.Apart → e.depth < depth →
      ReadsFormula 0 inner.disjunction e)
    (hunary : ∀ e : Formula, e.Enough → e.Apart → e.depth < depth → 3 ≤ e.rank →
      ReadsFormula 3 inner.unary e)
    (hboolean : GuessesOperands registry inner depth)
    (hsum : ∀ e : Written, e.Enough → e.depth ≤ depth → Reads 0 (sum registry inner) e)
    {w : Formula} (hw : w.Enough) (hapart : w.Apart) (hd : w.depth ≤ depth) (hrank : 3 ≤ w.rank) :
    ReadsFormula 3 (unary registry inner) w := by
  -- For each kind of operand the alternatives that are tried before its own are missing.
  cases w with
  | truth gap b =>
    exact reads_unary_of_relation (refuses_negation_truth gap b) <|
      reads_relation compareMarks_subset_marks signs_subset_marks
        (refuses_variableComparison_truth gap b) (reads_truth gap b)
  | name gap n =>
    have hvariables : Refuses (Halts 3 (gap.1 ++ n.chars)) variableComparison (gap.1 ++ n.chars) :=
      fun c f zs hc h hzs =>
        refuses_variableComparison_name gap n hc h (hzs.mono compareMarks_subset_marks)
    exact reads_unary_of_relation (refuses_negation_name gap n) <|
      reads_relation compareMarks_subset_marks signs_subset_marks hvariables
        (reads_boolean_name gap n)
  | compare l gap sign r numeric =>
    exact reads_unary_of_relation (refuses_negation_compare hapart.1)
      (reads_compare hsum hw hapart hd hboolean)
  | not gap word e =>
    have hread := reads_negation gap word.2 hapart.1 (hunary e hw.2 hapart.2 hd hw.1)
    intro c f zs hc h hzs
    exact orElse_eq (hread hc h (hzs.of_append e.ne_nil))
  | logic op l gap word r => exact absurd op.rank_lt (Nat.not_lt.2 hrank)
  | parens gap e gap' =>
    have hclose (zs : List Char) : Halts 0 e.text (gap'.1 ++ ')' :: zs) :=
      Closes.halts ⟨gap', zs, rfl⟩
    have hopen {c : Cursor} {zs : List Char} (h : c.rest = (Formula.parens gap e gap').text ++ zs) :
        c.rest = gap.1 ++ '(' :: (e.text ++ (gap'.1 ++ ')' :: zs)) := by
      rw [h, Formula.text]
      simp only [List.append_assoc, List.cons_append, List.nil_append]
    have hread : ReadsFormula 3 (boolean registry inner) (.parens gap e gap') :=
      fun c f zs hc h hzs =>
        orElse_eq ((hdisjunction e hw hapart hd).parenthesized hclose hc h hzs)
    exact reads_unary_of_relation (fun c f zs _ h _ => misses_negation_paren (hopen h)) <|
      reads_relation compareMarks_subset_marks signs_subset_marks
        (fun c f zs _ h _ => misses_variableComparison_paren (hopen h)) hread

/-! ## Chains -/

/-- Formulas joined by one operator are read if formulas are that bind tighter. -/
theorem reads_operators (op : LogicOp) {operand : Rule (Expr .boolean)}
    (hoperand : ∀ w : Formula, w.Enough → w.Apart → w.depth ≤ depth → op.rank < w.rank →
      ReadsFormula (op.rank + 1) operand w)
    {w : Formula} (hw : w.Enough) (hapart : w.Apart) (hd : w.depth ≤ depth)
    (hrank : op.rank ≤ w.rank) :
    ReadsFormula op.rank (chainLeft operand (operator (.logic op) op.spellings)) w := by
  -- Up to the end of a formula the chain takes it for what is accumulated.
  have hchain : Gathers (Halts (op.rank + 1) w.text) operand (operator (.logic op) op.spellings)
      w.text w.expr fun i => w.uses i := by
    induction w with
    | truth | name | compare | not | parens =>
      exact (hoperand _ hw hapart hd op.rank_lt).gathers
    | logic op' l gap word r ihl _ =>
      rcases Nat.lt_or_eq_of_le hrank with hlt | hrank
      · exact (hoperand _ hw hapart hd hlt).gathers
      · obtain rfl := LogicOp.rank_injective hrank
        obtain ⟨hl, hr, hlw, hrw⟩ := hw
        obtain ⟨hla, hra, hlapart, hrapart⟩ := hapart
        obtain ⟨hld, hrd⟩ := Nat.max_le.1 hd
        have hright : ReadsAs (Halts (op.rank + 1) (Formula.logic op l gap word r).text) operand
            r.text r.expr fun i => r.uses i :=
          (hoperand r hrw hrapart hrd hr).mono fun zs hzs => hzs.of_append r.ne_nil
        refine (ihl hlw hlapart hld hl).next (reads_operator op gap word.2) hright ?_
          (fun zs _ => ?_) fun zs _ => (Text.apart_append_right r.ne_nil).trans hra
        · obtain ⟨x, xs, hx, -⟩ := exists_first (wellSpelled_spellings op) word.2
          exact List.append_ne_nil_of_right_ne_nil _ (by rw [hx]; exact List.cons_ne_nil _ _)
        · exact .operator gap word.2 (Nat.lt_succ_self _) hla _
  exact hchain.reads (fun zs hzs => hzs.mono (marks_subset (Nat.le_succ _)))
    fun c f h => misses_logicOperator h (Nat.le_refl _) _

/-! ## The grammar -/

/-- Formulas are read if operands are. -/
theorem reads_disjunction_of_unary
    (hunary : ∀ e : Formula, e.Enough → e.Apart → e.depth ≤ depth → 3 ≤ e.rank →
      ReadsFormula 3 (unary registry inner) e)
    {w : Formula} (hw : w.Enough) (hapart : w.Apart) (hd : w.depth ≤ depth) :
    ReadsFormula 0 (disjunction registry inner) w := by
  have hconjunction (w : Formula) (hw : w.Enough) (hapart : w.Apart) (hd : w.depth ≤ depth)
      (hrank : 2 ≤ w.rank) : ReadsFormula 2 (conjunction registry inner) w :=
    reads_operators .and hunary hw hapart hd hrank
  have hexclusive (w : Formula) (hw : w.Enough) (hapart : w.Apart) (hd : w.depth ≤ depth)
      (hrank : 1 ≤ w.rank) : ReadsFormula 1 (exclusive registry inner) w :=
    reads_operators .xor hconjunction hw hapart hd hrank
  exact reads_operators .or hexclusive hw hapart hd (Nat.zero_le _)

/-- With rules nested as deep as negations and parentheses are, operands are read. -/
theorem reads_unary {w : Formula} (hw : w.Enough) (hapart : w.Apart) (hd : w.depth ≤ depth)
    (hrank : 3 ≤ w.rank) : ReadsFormula 3 (unary registry (.upTo registry depth)) w := by
  induction depth generalizing w with
  | zero =>
    exact reads_unary_of_nested (fun _ _ _ h => absurd h (Nat.not_lt_zero _))
      (fun _ _ _ h => absurd h (Nat.not_lt_zero _)) (fun _ => guesses_boolean) (fun _ => reads_sum)
      hw hapart hd hrank
  | succ depth ih =>
    refine reads_unary_of_nested (fun e he hapart hlt => ?_) (fun e he hapart hlt hrank => ?_)
      (fun _ => guesses_boolean) (fun _ => reads_sum) hw hapart hd hrank
    · exact reads_disjunction_of_unary (fun _ => ih) he hapart (Nat.le_of_lt_succ hlt)
    · exact ih he hapart (Nat.le_of_lt_succ hlt) hrank

/-- A formula is read as it is meant, at the depth that it needs. -/
theorem reads_disjunction {w : Formula} (hw : w.Enough) (hapart : w.Apart)
    (hd : w.depth ≤ depth) : ReadsFormula 0 (disjunction registry (.upTo registry depth)) w :=
  reads_disjunction_of_unary (fun _ => reads_unary) hw hapart hd

/-- What is written in logic, with as many parentheses as are needed, is read as it is meant:
    negations and comparisons bind tighter than `and`, that than `xor`, and that than `or`, all of
    them from left to right. The whole source is taken, the simplified expression is answered, and
    every variable is noted where it stands, once and with its category, whatever the rule tried on
    the way. No line may be indented less than the first one. -/
theorem logic_written (registry : Registry) {w : Formula} (hw : w.Enough) (hapart : w.Apart)
    (tabSize : Nat) (f : Facts)
    (hlines : ∀ l ∈ Layout.lines w.text, ¬ l.text.all Text.isSpace →
      (Cursor.ofChars w.text tabSize).reference.column ≤ leadingColumn (max tabSize 1) 1 l.text) :
    ∃ c, complete registry (logic registry) (.ofChars w.text tabSize) f =
        .ok w.expr.simplify c { f with uses := f.uses ++ w.uses 0 } ∧
      c.rest = [] ∧ c.index = byteSize w.text := by
  have hrest : (Cursor.ofChars w.text tabSize).rest = w.text ++ [] := (List.append_nil _).symm
  refine ⟨(Cursor.ofChars w.text tabSize).skip w.text.length, ?_,
    Cursor.rest_skip_append hrest, ?_⟩
  · have hformula : ReadsFormula 0 (disjunction registry (.upTo registry (byteSize w.text))) w :=
      reads_disjunction hw hapart w.depth_le
    exact map_eq (hformula (Cursor.level_of_lines hlines) hrest .nil)
  · rw [Cursor.index_skip_append hrest]
    exact Nat.zero_add _

/-- A formula over two lines, with a negation in front of a comparison in parentheses. -/
def readiness : Formula :=
  let none : Gap := .ofChars [] rfl
  let space : Gap := .ofChars [' '] (by decide)
  let line : Gap := .ofChars ['\r', '\n', '\t'] (by decide)
  let x : Name := .ofChars 'x' [] (by decide) (by decide) (by decide)
  let y : Name := .ofChars 'y' [] (by decide) (by decide) (by decide)
  let ok : Name := .ofChars 'o' ['k'] (by decide) (by decide) (by decide)
  let one : Numeral :=
    ⟨Option.none, ⟨['1'], by decide, List.all_eq_true.1 (by decide)⟩, Option.none,
      Numeral.isSign_none⟩
  .logic .or
    (.logic .and (.name none ok) space ⟨"and", by decide⟩
      (.not space ⟨"not", by decide⟩
        (.parens none
          (.compare (.arith .add (.name none x) space (.numeral none one)) space
            (.isNot [' ', ' '] nofun (List.all_eq_true.1 (by decide))) (.name space y) rfl)
          none)))
    line ⟨"||", by decide⟩
    (.logic .xor (.not space ⟨"!", by decide⟩ (.name none ok)) none ⟨"^", by decide⟩
      (.compare (.numeral space one) none .unequal (.name none y) rfl))

/-- A formula with all operators and spare white space is read. -/
theorem logic_written_readiness :
    readiness.text = "ok and not(x +1 is  not y)\r\n\t|| !ok^ 1!=y".toList ∧
      readiness.uses 0 = [⟨0, .typed "ok" .boolean⟩, ⟨11, .typed "x" .number⟩,
        ⟨24, .typed "y" .number⟩, ⟨33, .typed "ok" .boolean⟩, ⟨40, .typed "y" .number⟩] ∧
      ∃ c, complete (fun _ => none) (logic fun _ => none) (.ofChars readiness.text 4) .empty =
          .ok readiness.expr.simplify c { Facts.empty with uses := readiness.uses 0 } ∧
        c.rest = [] ∧ c.index = byteSize readiness.text :=
  ⟨by decide, by decide, logic_written (fun _ => none) (by decide) (by decide) 4 .empty
    (by decide +kernel)⟩

end Grammar

end Dialogue
