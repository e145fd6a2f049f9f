import Dialogue.Proofs.Grammar.Plan
import Dialogue.Proofs.Parser.Pace

/-!
# Walks of the grammar

Every rule of the grammar walks, and none of them goes on without end. A rule takes something
before another one is nested in it, so that one may be nested less deep: from nested rules that
stay below `n` (`Nested.Stay`) a rule is built that gets from below `n + 1` to below `n`
(`Rule.Advances`), or at least stays there (`Rule.Stays`).

The repetitions of the grammar end because each operator takes something, and each line of a
block does: the items of most blocks begin with a character of their own, and a line of text
that takes nothing stands at the end of its line (`walks_textLine`).
-/

namespace Dialogue

open Dialogue.Parser
open Cursor (Below)

variable {α β : Type} {o : Cursor} {n : Nat}

/-- Any reason but that a repetition would never end. -/
def Reason.Ends (x : Reason) : Prop := x ≠ .endless

/-- The rule walks, and ends. -/
def Rule.Stays (o : Cursor) (n : Nat) (p : Rule α) : Prop :=
  Walks Reason.Ends o (Below n) p fun _ => Below n

/-- The rule walks, takes something, and ends. -/
def Rule.Advances (o : Cursor) (n : Nat) (p : Rule α) : Prop :=
  Walks Reason.Ends o (Below (n + 1)) p fun _ => Below n

namespace Rule

variable {p : Rule α}

/-- What stays below a depth does so from all that is below a smaller one. -/
theorem Stays.anti {m : Nat} (h : p.Stays o n) (hm : m ≤ n) : p.Stays o m :=
  ((h.pre fun _ hc => Nat.lt_of_lt_of_le hc hm).below fun _ hc => hc).mono fun _ _ h => h.2

/-- A changed value is got by going as far. -/
theorem Advances.map {f : α → β} (h : p.Advances o n) : Rule.Advances o n (f <$> p) := Walks.map h

/-- Alternatives advance if both of them do. -/
theorem Advances.orElse {q : Rule α} (hp : p.Advances o n) (hq : q.Advances o n) :
    Rule.Advances o n (p <|> q) :=
  Walks.orElse hp hq

/-- What advances stays below the depth that it starts from. -/
theorem Advances.stays (h : p.Advances o n) : p.Stays o (n + 1) :=
  h.mono fun _ _ => below_succ

end Rule

namespace Grammar

variable {registry : Registry} {inner : Nested}

/-- Nested rules that stay below a bound. -/
structure Nested.Stay (o : Cursor) (n : Nat) (inner : Nested) : Prop where
  /-- Sums. -/
  sum : inner.sum.Stays o n
  /-- Disjunctions. -/
  disjunction : inner.disjunction.Stays o n
  /-- Truth values that may be negated. -/
  unary : inner.unary.Stays o n
  /-- Texts as operands. -/
  operand : inner.operand.Stays o n
  /-- What stands between quotes. -/
  quoted : inner.quoted.Stays o n
  /-- Rests of lines of text. -/
  textLine : inner.textLine.Stays o n
  /-- Lines of one level. -/
  script : inner.script.Stays o n

/-- Nested rules that stay below a depth do so for smaller ones. -/
theorem Nested.Stay.anti {m : Nat} (h : inner.Stay o n) (hm : m ≤ n) : inner.Stay o m :=
  ⟨h.sum.anti hm, h.disjunction.anti hm, h.unary.anti hm, h.operand.anti hm, h.quoted.anti hm,
    h.textLine.anti hm, h.script.anti hm⟩

/-- Operands stay below a depth, whatever their category is. -/
theorem Nested.Stay.expr (h : inner.Stay o n) : (k : Category) → (inner.expr k).Stays o n
  | .number => h.sum
  | .boolean => h.disjunction
  | .text => h.operand

/-! ## Names and operators -/

section

variable {σ : Type} {p : Parser σ α} {F : Reason → Prop} {Q : α → Cursor → Prop}

/-- White space before a token is gone over, and a miss of the token is at or ahead of it. -/
theorem walks_lexeme (hp : Walks F o (Below n) p Q) : Walks F o (Below n) (lexeme p) Q :=
  keeps_spaces.walks.bind fun _ => keeps_sameOrIndented.walks.bind fun _ => hp

/-- A token takes something if what is behind the white space does. -/
theorem takes_lexeme (hp : Takes p) : Takes (lexeme p) := fun F o n => walks_lexeme (hp F o n)

/-- A name takes a character at least. -/
theorem takes_identifier : Takes (identifier : Parser σ String) :=
  (takes_takeWhile1 _ _).filter.filter.map

/-- A name that is no word of the grammar takes something. -/
theorem takes_unreserved : Takes (unreserved : Parser σ String) := takes_identifier.filter

/-- The name of a variable takes something, though what is behind it is looked at. -/
theorem takes_variableName : Takes (variableName : Parser σ String) :=
  takes_unreserved.seqLeft (takes_char _).keeps.notFollowedBy

end

/-- Each spelling takes something if none of them is empty. -/
theorem takes_spelled : (spellings : List String) → (∀ s ∈ spellings, s ≠ "") →
    Takes (spelled spellings)
  | [], _ => takes_expected _
  | [_], h => takes_symbol (h _ (List.mem_singleton_self _))
  | _ :: s :: rest, h =>
    (takes_symbol (h _ List.mem_cons_self)).orElse
      (takes_spelled (s :: rest) fun s hs => h s (List.mem_cons_of_mem _ hs))

/-- An operator takes something if none of its spellings is empty. -/
theorem takes_operator (a : α) {spellings : List String} (h : ∀ s ∈ spellings, s ≠ "") :
    Takes (operator a spellings) :=
  (takes_lexeme (takes_spelled spellings h)).bind fun _ => .pure _

/-- An arithmetic sign takes its character. -/
theorem takes_arithmeticSign : Takes arithmeticSign := takes_operator () (by decide)

/-- A comparison sign takes something in each of its spellings. -/
theorem takes_compareSign : Takes compareSign :=
  takes_lexeme <|
    ((takes_keyword (by decide)).bind fun _ => takes_blanks1.keeps.bind fun _ =>
        (takes_keyword (by decide)).keeps.bind fun _ => .pure _).orElse <|
      (takes_tag (by decide)).map.orElse <|
        (takes_keyword (by decide)).map.orElse (takes_tag (by decide)).map

/-- Parentheses advance, as the opening one is taken before what they enclose. -/
theorem walks_parenthesized {p : Rule α} (hp : p.Stays o n) : (parenthesized p).Advances o n :=
  (takes_lexeme (takes_char _)).walks.bind fun _ => hp.bind fun _ =>
    (takes_lexeme (takes_char _)).keeps.walks.bind fun _ => .pure fun _ h => h

/-- An operator takes something, so a chain has an end. -/
theorem walks_chain {operand : Rule α} {operator : Rule (α → α → α)}
    (hoperand : operand.Advances o n) (hoperator : Takes operator) :
    Rule.Advances o n (chainLeft operand operator) :=
  .chainLeft hoperand hoperator.keeps.walks
    ((hoperand.pre fun _ => below_succ)) (.inr fun _ _ => hoperator.walks)

/-! ## Arithmetic -/

/-- A variable takes its name. -/
theorem takes_variableOf {k : Category} : Takes (variableOf k) :=
  .after keeps_position fun _ => takes_variableName.bind fun _ =>
    (keeps_record _).bind fun _ => .pure _

/-- Arguments stay below the depth, as there may be none. -/
theorem walks_arguments (h : inner.Stay o n) {wrongCount : Rule Unit}
    (hwrong : ∀ R, Walks Reason.Ends o (Below n) wrongCount R) (first : Bool)
    (ks : List Category) : (arguments inner wrongCount first ks).Stays o n := by
  induction ks generalizing first with
  | nil => exact .pure fun _ h => h
  | cons k ks ih =>
    rw [arguments]
    dsimp only
    have hargs : Rule.Stays o n (do
        let e ← inner.expr k
        let rest ← arguments inner wrongCount false ks
        return Args.cons e rest) :=
      (h.expr k).bind fun _ => (ih false).bind fun _ => .pure fun _ h => h
    have hmark x : Takes (lexeme (char x) : Rule Char) := takes_lexeme (takes_char x)
    refine (hmark _).keeps.wouldMatch.walks.bind fun _ => .stopIf hwrong ?_
    split
    · exact hargs
    · exact (hmark _).keeps.optional.walks.bind fun _ => .stopIf hwrong hargs

/-- A call takes a name and a parenthesis before its arguments, so it advances. -/
theorem walks_call (h : inner.Stay o n) {k : Category} :
    (call registry inner k).Advances o n := by
  rw [call]
  refine Walks.position.bind fun i => .fact fun hi => ?_
  refine takes_unreserved.keeps.walks.bind fun name => (takes_char _).walks.bind fun _ => ?_
  cases registry name with
  | none => exact .fatalAt hi (by rintro ⟨⟩)
  | some s =>
    dsimp only
    have hcount : Reason.Ends (.argumentCount name s.params.length) := by rintro ⟨⟩
    refine .ite (fun _ => .missAt hi (List.cons_ne_nil _ _)) fun _ => ?_
    refine (walks_arguments h (fun _ => .fatalAt hi hcount) true s.params).bind fun args => ?_
    refine (takes_lexeme (takes_char _)).keeps.optional.walks.bind fun _ => ?_
    exact .stopIf (fun _ => .fatalAt hi hcount) <| .pure fun _ h => h

/-- A factor advances in each of its forms. -/
theorem walks_factor (h : inner.Stay o n) : (factor registry inner).Advances o n :=
  (walks_parenthesized h.sum).orElse <| (takes_lexeme takes_number).map.walks.orElse <|
    (walks_lexeme (walks_call h)).orElse (takes_lexeme takes_variableOf).walks

/-- A product advances with its first factor, and each operator takes something. -/
theorem walks_product (h : inner.Stay o n) : (product registry inner).Advances o n :=
  walks_chain (walks_factor h)
    ((takes_operator _ (by decide)).orElse (takes_operator _ (by decide)))

/-- A sum advances with its first product. -/
theorem walks_sum (h : inner.Stay o n) : (sum registry inner).Advances o n :=
  walks_chain (walks_product h)
    ((takes_operator _ (by decide)).orElse (takes_operator _ (by decide)))

/-! ## Quotes -/

/-- A substitution takes its brace before another rule is nested in it. -/
theorem walks_substitution (h : inner.Stay o n) : (substitution inner).Advances o n := by
  have hclose : Takes (do let _ ← spaces; discard (char closeBrace) : Rule Unit) :=
    .after keeps_spaces fun _ => (takes_char _).map
  refine (takes_char _).walks.bind fun _ => .orElse ?_ (.orElse ?_ (.orElse ?_ ?_))
  · exact keeps_spaces.walks.bind fun _ => takes_variableName.keeps.walks.bind fun _ =>
      hclose.keeps.walks.bind fun _ => .pure fun _ h => h
  · exact .map (h.sum.seqLeft fun _ => hclose.keeps.walks)
  · exact .map (h.disjunction.seqLeft fun _ => hclose.keeps.walks)
  · exact h.operand.seqLeft fun _ => hclose.keeps.walks

/-- An escape takes its backslash. -/
theorem takes_escape : Takes escape :=
  (takes_char _).bind fun _ => (takes_char _).keeps.map.orElse <|
    (takes_char _).keeps.map.orElse <| (takes_char _).keeps.orElse <|
      (takes_char _).keeps.orElse (takes_char _).keeps

/-- Between quotes nothing has to be taken; what is nested comes behind a piece. -/
theorem walks_quoted (h : inner.Stay o n) : (quoted inner).Stays o (n + 1) := by
  refine (keeps_takeWhile _).walks.bind fun run => ?_
  refine (takes_satisfy _ _).keeps.lookAhead.walks.bind fun _ => ?_
  refine .optionalBind takes_escape.walks (fun c => ?_) ?_
  · exact h.quoted.bind fun _ => .pure fun _ => below_succ
  · refine .optionalBind (walks_substitution h) (fun piece => ?_) (.pure fun _ h => h)
    exact h.quoted.bind fun _ => .pure fun _ => below_succ

/-- A text in quotes takes its quotation mark first. -/
theorem walks_quote (h : inner.Stay o n) : (quote inner).Advances o n := by
  refine (takes_char _).walks.bind fun _ => ?_
  refine ((walks_quoted h).anti (Nat.le_succ n)).bind fun e => ?_
  exact (takes_char _).keeps.walks.bind fun _ => .pure fun _ h => h

/-- A text as an operand advances in each of its forms. -/
theorem walks_operand (h : inner.Stay o n) : (operand registry inner).Advances o n :=
  (walks_lexeme (walks_quote h)).orElse <|
    (walks_lexeme (walks_call h)).orElse (takes_lexeme takes_variableOf).walks

/-! ## Logic -/

/-- A truth value alone advances in each of its forms. -/
theorem walks_boolean (h : inner.Stay o n) : (boolean registry inner).Advances o n :=
  (walks_parenthesized h.disjunction).orElse <|
    (takes_lexeme (takes_keyword (by decide))).map.walks.orElse <|
      (takes_lexeme (takes_keyword (by decide))).map.walks.orElse <|
        (walks_lexeme (walks_call h)).orElse (takes_lexeme takes_variableOf).walks

/-- Two variables compared take their names. -/
theorem takes_variableComparison : Takes variableComparison :=
  .after keeps_spaces fun _ => .after keeps_sameOrIndented fun _ => .after keeps_position fun _ =>
    takes_variableName.bind fun _ => takes_compareSign.keeps.bind fun _ =>
      (takes_lexeme takes_variableName).keeps.bind fun _ =>
        takes_arithmeticSign.keeps.notFollowedBy.bind fun _ => (keeps_record _).bind fun _ =>
          .pure _

/-- A comparison advances with its first operand. -/
theorem walks_comparisonOf {k : Category} {p : Rule (Expr k)} (hp : p.Advances o n) :
    (comparisonOf p).Advances o n :=
  hp.bind fun _ => takes_compareSign.keeps.walks.bind fun _ =>
    (hp.stays.anti (Nat.le_succ n)).bind fun _ => .pure fun _ h => h

/-- The comparisons advance, each with its first operand. -/
theorem walks_comparison (h : inner.Stay o n) : (comparison registry inner).Advances o n :=
  takes_variableComparison.walks.orElse <| (walks_comparisonOf (walks_boolean h)).orElse <|
    (walks_comparisonOf (walks_sum h)).orElse (walks_comparisonOf (walks_operand h))

/-- A reading with a value has taken something. -/
theorem walks_booleanReading (h : inner.Stay o n) :
    Walks Reason.Ends o (Below (n + 1)) (booleanReading registry inner) fun e c =>
      e.elim (Below (n + 1) c) fun _ => Below n c := by
  have hboolean : (boolean registry inner).Advances o n := walks_boolean h
  have hunless (e : Expr .boolean) : Walks Reason.Ends o (Below n)
      (do return if ← wouldMatch arithmeticSign then none else some e : Rule _) fun e c =>
        e.elim (Below (n + 1) c) fun _ => Below n c :=
    takes_arithmeticSign.keeps.wouldMatch.walks.bind fun b => .pure fun c hc => by
      cases b
      · exact hc
      · exact below_succ hc
  refine .optionalBind hboolean (fun a => ?_) (.pure fun _ h => h)
  refine .optionalBind takes_compareSign.keeps.walks (fun op => ?_) (hunless a)
  refine .optionalBind (hboolean.stays.anti (Nat.le_succ n)) (fun b => hunless _) ?_
  exact .pure fun _ => below_succ

/-- A relation advances, whichever reading answers. -/
theorem walks_relation (h : inner.Stay o n) : (relation registry inner).Advances o n := by
  rw [Rule.Advances, relation, insteadOf_eq, insteadOf_eq]
  refine .reread (S := fun e c => e.elim (Below (n + 1) c) fun _ => Below n c) ?_
    (fun _ _ hc => hc) (.reread (walks_booleanReading h) (fun _ _ hc => hc) ?_)
  · exact .optional takes_variableComparison.walks fun _ h => h
  · exact (walks_comparisonOf (walks_sum h)).orElse (walks_comparisonOf (walks_operand h))

/-- A negation takes its sign before another one is nested in it. -/
theorem walks_negation (h : inner.Stay o n) : (negation inner).Advances o n := by
  have hbang : Takes (tag "!" <* notFollowedBy (char '=') "'!'" : Rule String) :=
    (takes_tag (by decide)).seqLeft (takes_char _).keeps.notFollowedBy
  refine (takes_lexeme ((takes_keyword (by decide)).orElse hbang)).walks.bind fun _ => ?_
  exact h.unary.bind fun _ => .pure fun _ h => h

/-- What may be negated advances, negated or not. -/
theorem walks_unary (h : inner.Stay o n) : (unary registry inner).Advances o n :=
  (walks_negation h).orElse (walks_relation h)

/-- A conjunction advances with its first operand. -/
theorem walks_conjunction (h : inner.Stay o n) : (conjunction registry inner).Advances o n :=
  walks_chain (walks_unary h) (takes_operator _ (by decide))

/-- An exclusive disjunction advances with its first operand. -/
theorem walks_exclusive (h : inner.Stay o n) : (exclusive registry inner).Advances o n :=
  walks_chain (walks_conjunction h) (takes_operator _ (by decide))

/-- A disjunction advances with its first operand. -/
theorem walks_disjunction (h : inner.Stay o n) : (disjunction registry inner).Advances o n :=
  walks_chain (walks_exclusive h) (takes_operator _ (by decide))

/-! ## Lines of text -/

/-- Behind the end of a line, the line is at its end. -/
theorem atLineEnd_of_eol {c c' : Cursor} {f f' : Facts} {u : Unit}
    (h : (eol : Rule Unit) c f = .ok u c' f') : c.AtLineEnd := by
  cases hr : c.rest with
  | nil => exact .inl (by rw [Cursor.atEnd, hr]; rfl)
  | cons x xs =>
    refine .inr ⟨x, xs, hr, Decidable.byContradiction fun hx => ?_⟩
    have hnewline : newline c f = .miss c.index ["line break"] f := by
      rw [newline, hr]
      split
      · rename_i heq
        cases heq
        exact absurd rfl hx
      · rename_i heq
        cases heq
        exact if_neg hx
      · rename_i heq
        cases heq
    have heof : eof c f = .miss c.index ["end of input"] f := by
      rw [eof, Cursor.atEnd, hr]
      rfl
    change Parser.orElse newline eof c f = _ at h
    rw [Parser.orElse, hnewline, heof] at h
    cases h

/-- If the end of a line would match, it is ahead. -/
theorem walks_wouldMatch_eol {P : Cursor → Prop} :
    Walks Reason.Ends o P (wouldMatch eol : Rule Bool) fun b c => P c ∧ (b → c.AtLineEnd) := by
  intro c f ho hc
  have hwalk := keeps_eol Reason.Ends o (c.remaining + 1) f ho (Nat.lt_succ_self _)
  rw [wouldMatch]
  cases hr : (eol : Rule Unit) c f with
  | ok u c' f' => exact ⟨.refl c, rfl, hc, fun _ => atLineEnd_of_eol hr⟩
  | miss i e f' => exact ⟨.refl c, rfl, hc, nofun⟩
  | fatal i x f' => rwa [hr] at hwalk

/-- A line of text that advances by nothing is at the end of its line. -/
theorem walks_textLine (h : inner.Stay o n) :
    Walks Reason.Ends o (Below (n + 1)) (textLine inner) fun _ c =>
      Below n c ∨ Below (n + 1) c ∧ c.AtLineEnd := by
  refine takes_blanks1.keeps.optional.walks.bind fun _ => ?_
  refine (keeps_takeWhile _).walks.bind fun run => ?_
  refine walks_wouldMatch_eol.bind fun atEnd => .ite (fun he => ?_) fun _ => ?_
  · split
    · exact .pure fun _ hc => .inr ⟨hc.1, hc.2 he⟩
    · exact .pure fun _ hc => .inr ⟨hc.1, hc.2 he⟩
  · refine ((walks_substitution h).pre fun _ hc => hc.1).bind fun piece => ?_
    exact h.textLine.bind fun rest => .pure fun _ => .inl

/-- A line of text takes something, or is the last one of the source. -/
theorem walks_lineOfText (h : inner.Stay o n) :
    Walks Reason.Ends o (Below (n + 1)) (textLine inner <* lineEnd) fun _ => Below (max n 1) := by
  refine (walks_textLine h).seqLeft fun e => .or ?_ walks_lineEnd
  exact keeps_lineEnd.walks.mono fun _ c hc => Nat.lt_of_lt_of_le hc (Nat.le_max_left n 1)

/-- A text stays below the depth; its further lines are below the first. -/
theorem walks_text (h : inner.Stay o n) : (text inner).Stays o (n + 1) := by
  have hlines : Walks Reason.Ends o (Below (n + 1)) (textLine inner <* lineEnd) fun _ c =>
      True ∧ Below (n + 1) c :=
    (walks_lineOfText h).mono fun _ c hc => ⟨trivial, Nat.lt_of_lt_of_le hc (by omega)⟩
  refine .map ((Walks.block 1 hlines keeps_indented.walks (.inr fun m hm => ?_)).mono
    fun _ _ hc => hc.2)
  exact walks_lineOfText (h.anti (Nat.le_of_lt_succ hm))

/-- A block of items that take something. -/
theorem walks_block {item : Rule α} {continues : Rule β} {A : α → Prop} (owed : Nat)
    (hitem : ∀ m ≤ n, Walks Reason.Ends o (Below (m + 1)) item fun a c => A a ∧ Below m c)
    (hcont : Keeps continues) :
    Walks Reason.Ends o (Below (n + 1)) (block item continues owed) fun as c =>
      (∀ a ∈ as, A a) ∧ Below n c := by
  have hline (m : Nat) (hm : m ≤ n) : Walks Reason.Ends o (Below (m + 1)) (item <* lineEnd)
      fun a c => A a ∧ Below m c :=
    (hitem m hm).seqLeft fun a => .fact fun ha => keeps_lineEnd.walks.mono fun _ _ hc => ⟨ha, hc⟩
  refine .block owed (hline n (Nat.le_refl n)) hcont.walks (.inr fun m hm => ?_)
  exact (hline m (Nat.le_of_lt_succ hm)).mono fun _ c hc =>
    Nat.lt_of_lt_of_le hc.2 (Nat.le_max_left m 1)

/-- The mark of a prompt takes its angle bracket. -/
theorem takes_promptMark : Takes promptMark :=
  (takes_char _).bind fun _ => keeps_blanks.discard

/-- A prompt takes a mark for each of its lines. -/
theorem walks_prompt (h : inner.Stay o n) : (prompt inner).Advances o n := by
  have hitem (m : Nat) (hm : m ≤ n) : Walks Reason.Ends o (Below (m + 1))
      (promptMark *> textLine inner) fun _ c => True ∧ Below m c := by
    refine takes_promptMark.walks.seqRight fun _ => ?_
    refine ((walks_textLine h).pre fun _ hc => Nat.lt_succ_of_lt (Nat.lt_of_lt_of_le hc hm)).below
      (fun _ hc => hc) |>.mono fun _ _ hc => ⟨trivial, hc.2⟩
  refine .map ((walks_block 1 hitem ?_).mono fun _ _ hc => hc.2)
  exact keeps_sameOrIndented.seqLeft takes_promptMark.keeps.lookAhead

/-! ## Statements -/

/-- A line of dialogue takes its mark before the text. -/
theorem walks_dialog (h : inner.Stay o n) (mark : Char) : (dialog inner mark).Advances o n := by
  refine .atOwnIndent ?_ fun _ _ _ hc => hc
  refine takes_identifier.keeps.optional.walks.bind fun _ => keeps_blanks.walks.bind fun _ => ?_
  refine (takes_char _).walks.bind fun _ => keeps_spaces.walks.bind fun _ => ?_
  exact ((walks_text h).anti (Nat.le_succ n)).bind fun _ => .pure fun _ h => h

/-- A node that clears takes its word. -/
theorem takes_clear : Takes clear := by
  refine (takes_keyword (by decide)).bind fun _ => ?_
  refine (takes_blanks1.keeps.seqLeft keeps_eol.notFollowedBy).optional.bind fun asked => ?_
  cases asked with
  | none => exact .pure _
  | some _ =>
    exact ((takes_keyword (by decide)).keeps.map.orElse <|
      (takes_keyword (by decide)).keeps.map.orElse (takes_keyword (by decide)).keeps.map).map

/-- An id in brackets takes its bracket. -/
theorem takes_bracketed : Takes (bracketed : Rule String) :=
  (takes_char _).bind fun _ => keeps_blanks.bind fun _ => takes_identifier.keeps.bind fun _ =>
    keeps_blanks.bind fun _ => (takes_char _).keeps.bind fun _ => .pure _

/-- A jump takes its word. -/
theorem takes_jump : Takes jump :=
  (takes_keyword (by decide)).bind fun _ => takes_blanks1.keeps.bind fun _ =>
    keeps_position.bind fun _ => (takes_bracketed.orElse takes_identifier).keeps.bind fun _ =>
      (keeps_record _).bind fun _ => .pure _

/-- A unit of time takes its word. -/
theorem takes_timeUnit : Takes timeUnit :=
  have hword {w : String} (hw : w ≠ "") : Takes (keyword w : Rule String) := takes_keyword hw
  ((hword (by decide)).orElse (hword (by decide))).map.orElse <|
    ((hword (by decide)).orElse (hword (by decide))).map.orElse
      ((hword (by decide)).orElse (hword (by decide))).map

/-- A pause takes its word before the sum. -/
theorem walks_pause (h : inner.Stay o n) : (pause registry inner).Advances o n := by
  refine (takes_keyword (by decide)).walks.bind fun _ => takes_blanks1.keeps.walks.bind fun _ => ?_
  refine ((walks_sum h).stays.anti (Nat.le_succ n)).bind fun amount => ?_
  exact keeps_blanks.walks.bind fun _ => takes_timeUnit.keeps.walks.bind fun _ => .pure fun _ h => h

/-- Each statement advances. -/
theorem walks_node (h : inner.Stay o n) : (node registry inner).Advances o n :=
  have hword {w : String} (hw : w ≠ "") (m : Node) :
      Rule.Advances o n ((fun _ => m) <$> keyword w) := (takes_keyword hw).map.walks
  (walks_dialog h ':').map.orElse <| (walks_dialog h '+').map.orElse <|
    .orElse takes_clear.walks <| (hword (by decide) .choose).orElse <|
    .orElse takes_jump.walks <| (hword (by decide) .wait).orElse <|
    (walks_pause h).orElse (hword (by decide) .leave)

/-! ## Passages -/

/-- Claiming an id takes nothing, and where it fails is an offset that was seen. -/
theorem walks_declare {P : Cursor → Prop} {i : Nat} {id : String} (hi : o.Sees i) :
    Walks Reason.Ends o P (Rule.declare i id) fun _ => P := by
  intro c f _ hc
  rw [Rule.declare]
  split
  · exact ⟨hi, nofun⟩
  · exact ⟨.refl c, rfl, hc⟩

/-- A passage below a line stays below the depth. -/
theorem walks_below (h : inner.script.Stays o n) : (below inner).Stays o n :=
  keeps_lineEnd.walks.bind fun _ => keeps_spaces.walks.bind fun _ =>
    keeps_indented.walks.bind fun _ => h

/-- A label takes its word before the passage below it. -/
theorem walks_label (h : inner.Stay o n) : (label inner).Advances o n := by
  refine (takes_keyword (by decide)).walks.bind fun _ => takes_blanks1.keeps.walks.bind fun _ => ?_
  refine Walks.position.bind fun i => .fact fun hi => ?_
  refine takes_bracketed.keeps.walks.bind fun id => (walks_declare hi).bind fun _ => ?_
  exact (walks_below h.script).bind fun _ => .pure fun _ h => h

/-- An option remembers where it starts. -/
theorem walks_option (h : inner.Stay o n) :
    Walks Reason.Ends o (Below (n + 1)) (option inner) fun u c => o.Sees u.index ∧ Below n c := by
  refine Walks.position.bind fun i => .fact fun hi => ?_
  refine (walks_prompt h).bind fun _ => (walks_below h.script).bind fun _ => ?_
  exact .pure fun _ hc => ⟨hi, hc⟩

/-- Options claim their ids at offsets that were gone over. -/
theorem walks_nameOptions (explicit : Option String) (us : List Unnamed)
    (hus : ∀ u ∈ us, o.Sees u.index) : (nameOptions explicit us).Stays o n := by
  induction us generalizing explicit with
  | nil => exact .pure fun _ h => h
  | cons u rest ih =>
    have hi : o.Sees u.index := hus u List.mem_cons_self
    have hrest (e : Option String) := ih e fun u hu => hus u (List.mem_cons_of_mem _ hu)
    cases explicit with
    | some id => exact .map (hrest none)
    | none =>
      rw [nameOptions]
      dsimp only
      refine Walks.journal.bind fun known => .stopIf (fun _ => .fatalAt hi nofun) ?_
      exact (walks_declare hi).bind fun _ => .map (hrest none)

/-- A choice takes its word before its options. -/
theorem walks_choice (h : inner.Stay o n) : (choice inner).Advances o n := by
  have hoptions (explicit : Option String) : Rule.Stays o n (do
      lineEnd
      let _ ← spaces
      let _ ← indented
      let options ← atOwnIndent (block (option inner) (same <* lookAhead (char '>')) 1)
      nameOptions explicit options) := by
    refine keeps_lineEnd.walks.bind fun _ => keeps_spaces.walks.bind fun _ => ?_
    refine keeps_indented.walks.bind fun _ => ?_
    let Q (us : List Unnamed) (c : Cursor) : Prop := (∀ u ∈ us, o.Sees u.index) ∧ Below n c
    refine Walks.bind (.atOwnIndent (R := Q) ?_ fun _ _ _ h => h) fun us =>
      .fact (walks_nameOptions explicit us)
    refine (walks_block 1 (fun m hm => walks_option (h.anti hm)) ?_).pre fun _ => below_succ
    exact keeps_same.seqLeft (takes_char _).keeps.lookAhead
  refine (takes_keyword (by decide)).walks.bind fun _ => ?_
  refine .optionalBind (Q := fun named c => o.Sees named.1 ∧ Below n c) ?_ (fun named => ?_) ?_
  · refine takes_blanks1.keeps.walks.bind fun _ => Walks.position.bind fun i => .fact fun hi => ?_
    exact takes_bracketed.keeps.walks.bind fun _ => .pure fun _ hc => ⟨hi, hc⟩
  · exact .fact fun hi => (walks_declare hi).bind fun _ => hoptions (some named.2)
  · exact hoptions none

/-- A line of a passage advances. -/
theorem walks_line (h : inner.Stay o n) : (line registry inner).Advances o n :=
  (walks_node h).map.orElse <| (walks_choice h).orElse (walks_label h)

/-- A script advances with its first line. -/
theorem walks_script (h : inner.Stay o n) : (script registry inner).Advances o n := by
  refine keeps_spaces.walks.bind fun _ => ?_
  refine Walks.bind (.atOwnIndent (R := fun _ c => Below n c) ?_ fun _ _ _ h => h) fun lines =>
    .pure fun _ h => h
  refine (walks_block (A := fun _ => True) 0 (fun m hm => ?_) keeps_same).mono fun _ _ h => h.2
  exact (walks_line (h.anti hm)).mono fun _ _ hc => ⟨trivial, hc⟩

/-! ## Rules with all that is nested in them -/

/-- Rules that are nested up to a depth stay below it: where nothing may be nested any more,
    nothing is ahead that could be. -/
theorem stay_upTo (depth : Nat) : (Nested.upTo registry depth).Stay o depth := by
  induction depth with
  | zero =>
    have hnone {α : Type} (p : Rule α) : p.Stays o 0 :=
      fun c _ _ hc => absurd hc (Nat.not_lt_zero c.remaining)
    exact ⟨hnone _, hnone _, hnone _, hnone _, hnone _, hnone _, hnone _⟩
  | succ depth ih =>
    exact {
      sum := (walks_sum ih).stays
      disjunction := (walks_disjunction ih).stays
      unary := (walks_unary ih).stays
      operand := (walks_operand ih).stays
      quoted := walks_quoted ih
      textLine := (walks_textLine ih).mono fun _ _ hc => hc.elim below_succ fun h => h.1
      script := (walks_script ih).stays }

/-- As many bytes as are ahead are a depth that is enough. -/
theorem walks_complete {rule : Nested → Rule α}
    (h : ∀ {n inner}, inner.Stay o n → (rule inner).Stays o (n + 1)) :
    (complete registry rule).Stays o n := by
  intro c f ho hc
  have hstay : (Nested.upTo registry c.remaining).Stay o c.remaining := stay_upTo _
  have hrule := h hstay f ho (Nat.lt_succ_self _)
  exact hrule.mono fun _ c' hahead _ => Nat.lt_of_le_of_lt hahead.remaining_le hc

/-- A whole source is walked over from its start. -/
theorem walks_source : (source registry).Stays o n := by
  intro c f ho hc
  simp only [source]
  split
  · exact ⟨Cursor.ahead_skip _ c, rfl, Nat.lt_of_le_of_lt (c.remaining_skip_le _) hc⟩
  · refine Walks.bind (walks_complete fun h => (walks_script h).stays) (fun outline => ?_) f ho hc
    refine keeps_spaces.walks.bind fun _ => ?_
    exact (takes_satisfy _ _).keeps.notFollowedBy.walks.bind fun _ => .pure fun _ h => h

end Grammar

end Dialogue
