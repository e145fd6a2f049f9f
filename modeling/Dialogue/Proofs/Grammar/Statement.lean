import Dialogue.Grammar.Statement
import Dialogue.Proofs.Grammar.Expression

/-!
# The facts of statements

What a speaker says and the prompt of an option are blocks of lines, and the facts of a
block are those of its items in a row (`records_block`). Joining the lines of a text
neither adds nor drops anything that its expressions mention.

A node adds the facts of its expression, and a jump adds the block that it leads to
(`records_node`). No statement leads anywhere but by a jump.
-/

namespace Dialogue.Grammar

open Dialogue.Parser

variable {α β : Type} {registry : Registry} {inner : Nested}

/-- The facts of a block are those of its items. -/
theorem triple_block {log : α → Log} {item : Rule α} {continues : Rule β} {owed : Nat}
    (hitem : item.Records registry log) (hcont : Silent continues) (l : Log) :
    Triple (Facts.Match registry · l) (block item continues owed)
      fun as f => as ≠ [] ∧ f.Match registry (l ++ .concat (as.map log)) := by
  -- The invariant: the facts are those of all items so far.
  refine (Triple.block (I := fun as f => f.Match registry (l ++ .concat (as.map log)))
    (fun as => ?_) fun _ => hcont.triple).pre fun _ h => ?_
  · refine (hitem.before silent_lineEnd _).mono fun a f h => ?_
    rwa [List.map_append, Log.concat_append, List.map_singleton, Log.concat_cons,
      Log.concat_nil, Log.append_empty, ← Log.append_assoc]
  · rwa [List.map_nil, Log.concat_nil, Log.append_empty]

/-- A block records its items in a row. -/
theorem records_block {log : α → Log} {item : Rule α} {continues : Rule β} {owed : Nat}
    (hitem : item.Records registry log) (hcont : Silent continues) :
    Rule.Records registry (fun as => .concat (as.map log)) (block item continues owed) :=
  fun l => (triple_block hitem hcont l).mono fun _ _ h => h.2

/-! ## Prose -/

/-- A line of text records its segments. -/
theorem records_textLine (hinner : inner.Records registry) :
    Rule.Records registry Expr.log (textLine inner) := by
  intro l
  refine silent_blanks1.optional.triple.bind fun _ => ?_
  refine (silent_takeWhile _).triple.bind fun run => ?_
  refine silent_wouldMatch.triple.bind fun atEnd => .ite (fun _ => ?_) fun _ => ?_
  · -- A line without a substitution is a literal.
    split
    · exact .pure fun _ h => by rwa [Expr.log_literal, Log.append_empty]
    · exact .pure fun _ h => by rwa [Expr.log_literal, Log.append_empty]
  · refine (records_substitution hinner l).bind fun piece => ?_
    exact triple_joinPiece hinner.textLine l _ piece (Expr.log_literal _)

/-- Joined lines mention what the lines do. -/
theorem log_joinLines (es : List (Expr .text)) :
    (joinLines es).log = .concat (es.map Expr.log) := by
  have hfold (e : Expr .text) (es : List (Expr .text)) :
      (es.foldl spaced e).log = e.log ++ .concat (es.map Expr.log) := by
    induction es generalizing e with
    | nil => rw [List.foldl_nil, List.map_nil, Log.concat_nil, Log.append_empty]
    | cons d es ih =>
      rw [List.foldl_cons, ih, spaced, Expr.log_concat, Expr.log_concat, Expr.log_literal,
        Log.append_empty, List.map_cons, Log.concat_cons, Log.append_assoc]
  cases es with
  | nil => exact Expr.log_literal _
  | cons e es => exact (Expr.log_eq (Expr.mentions_simplify _)).trans (hfold e es)

/-- A text records its lines. -/
theorem records_text (hinner : inner.Records registry) :
    Rule.Records registry Expr.log (text inner) :=
  (records_block (records_textLine hinner) silent_indented).map log_joinLines

/-- The mark of an option leaves no fact. -/
theorem silent_promptMark : Silent promptMark :=
  (silent_char _).bind fun _ => silent_blanks.discard

/-- A prompt records its lines. -/
theorem records_prompt (hinner : inner.Records registry) :
    Rule.Records registry Expr.log (prompt inner) :=
  (records_block (.after silent_promptMark (records_textLine hinner))
    (silent_sameOrIndented.seqLeft silent_lookAhead)).map log_joinLines

/-! ## Nodes -/

/-- A node of which the expression is read. -/
theorem records_ofExpr {n : α → Node} {p : Rule α}
    (hp : p.Records registry fun a => { mentions := (n a).mentions })
    (ht : ∀ a, (n a).target? = none) (hj : ∀ a, (n a).jump? = none) :
    Rule.Records registry Node.log (n <$> p) :=
  fun l => .map <| (hp l).mono fun a _ h => h.line (ht a) (hj a)

/-- A node without an expression. -/
theorem records_ofSilent {n : α → Node} {p : Rule α} (hp : Silent p)
    (hm : ∀ a, (n a).mentions = []) (ht : ∀ a, (n a).target? = none)
    (hj : ∀ a, (n a).jump? = none) : Rule.Records registry Node.log (n <$> p) :=
  records_ofExpr (.of_silent hp fun a => Log.ext rfl rfl (hm a)) ht hj

/-- Dialogue records what is said. -/
theorem records_dialog (hinner : inner.Records registry) (mark : Char) :
    Rule.Records registry (fun said => said.2.log) (dialog inner mark) := by
  refine .atOwnIndent fun l => ?_
  refine silent_identifier.optional.triple.bind fun _ => ?_
  refine silent_blanks.triple.bind fun _ => ?_
  refine (silent_char _).triple.bind fun _ => silent_spaces.triple.bind fun _ => ?_
  exact (records_text hinner l).bind fun _ => .pure fun _ h => h

/-- A line that is said records what is said. -/
theorem records_say (hinner : inner.Records registry) :
    Rule.Records registry Node.log (say inner) :=
  records_ofExpr (records_dialog hinner _) (fun _ => rfl) fun _ => rfl

/-- A line that is added to those before records what is added. -/
theorem records_append (hinner : inner.Records registry) :
    Rule.Records registry Node.log (append inner) :=
  records_ofExpr (records_dialog hinner _) (fun _ => rfl) fun _ => rfl

/-- Clearing leaves no fact. -/
theorem records_clear : Rule.Records registry Node.log clear := by
  refine .after (silent_keyword _) fun l => ?_
  refine (silent_blanks1.seqLeft silent_notFollowedBy).optional.triple.bind fun o => ?_
  have hkind : Silent ((fun _ => .all) <$> keyword "all"
      <|> (fun _ => .choices) <$> keyword "choices"
      <|> (fun _ => .dialog) <$> keyword "dialog" : Rule ClearKind) :=
    (silent_keyword _).map.orElse ((silent_keyword _).map.orElse (silent_keyword _).map)
  cases o with
  | none =>
    refine .pure fun f h => ?_
    rw [← Log.append_empty l] at h
    exact h.line rfl rfl
  | some _ => exact records_ofSilent hkind (fun _ => rfl) (fun _ => rfl) (fun _ => rfl) l

/-- An id in brackets leaves no fact by being read. -/
theorem silent_bracketed : Silent (bracketed : Rule String) :=
  (silent_char _).bind fun _ => silent_blanks.bind fun _ => silent_identifier.bind fun _ =>
    silent_blanks.bind fun _ => (silent_char _).bind fun _ => .pure _

/-- A jump records the block that it leads to. -/
theorem records_jump : Rule.Records registry Node.log jump := by
  intro l
  refine (silent_keyword _).triple.bind fun _ => silent_blanks1.triple.bind fun _ => ?_
  refine silent_position.triple.bind fun _ => ?_
  refine (silent_bracketed.orElse silent_identifier).triple.bind fun _ => ?_
  exact (Triple.record fun _ h => h.jumpTo).bind fun _ => .pure fun _ h => h

/-- A unit of time leaves no fact. -/
theorem silent_timeUnit : Silent timeUnit :=
  ((silent_keyword _).orElse (silent_keyword _)).map.orElse <|
    ((silent_keyword _).orElse (silent_keyword _)).map.orElse
      ((silent_keyword _).orElse (silent_keyword _)).map

/-- A pause records its amount. -/
theorem records_pause (hinner : inner.Records registry) :
    Rule.Records registry Node.log (pause registry inner) := by
  intro l
  refine (silent_keyword _).triple.bind fun _ => silent_blanks1.triple.bind fun _ => ?_
  refine (records_sum hinner l).bind fun amount => ?_
  refine silent_blanks.triple.bind fun _ => silent_timeUnit.triple.bind fun unit => ?_
  -- The unit is a literal factor.
  have hlog (e : Expr .number) :
      (Expr.arith .multiply e (.literal (k := .number) unit)).simplify.log = e.log := by
    refine Expr.log_eq ?_
    rw [Expr.mentions_simplify, Expr.mentions, Expr.mentions_literal, List.append_nil]
  refine .pure fun f h => ?_
  rw [← hlog amount] at h
  exact h.line rfl rfl

/-- A statement of one line records its expression and its jump. -/
theorem records_node (hinner : inner.Records registry) :
    Rule.Records registry Node.log (node registry inner) :=
  (records_say hinner).orElse <| (records_append hinner).orElse <| records_clear.orElse <|
    (records_ofSilent (silent_keyword _) (fun _ => rfl) (fun _ => rfl) fun _ => rfl).orElse <|
    records_jump.orElse <|
    (records_ofSilent (silent_keyword _) (fun _ => rfl) (fun _ => rfl) fun _ => rfl).orElse <|
    (records_pause hinner).orElse <|
    records_ofSilent (silent_keyword _) (fun _ => rfl) (fun _ => rfl) fun _ => rfl

end Dialogue.Grammar
