import Dialogue.Grammar
import Dialogue.Proofs.Parser.Built

/-!
# Plans of the grammar

Every rule of the grammar is built with the combinators from elementary parsers, and from those
that only a grammar has: failures at an offset from before, and claims of ids (`Leaf`). A rule
that others are nested in is built as deep as there are bytes ahead (`built_complete`), so a
plan of the grammar shows all that is run while a source is read (`built_source`).
-/

namespace Dialogue.Grammar

open Dialogue.Parser

variable {α β : Type} {registry : Registry} {inner : Nested}

/-- What the rules of the grammar are built from besides elementary parsers. -/
inductive Leaf : {α : Type} → Rule α → Prop where
  | fatalAt {α : Type} (i : Nat) (x : Reason) : Leaf (fatalAt i x : Rule α)
  | missAt {α : Type} (i : Nat) (e : List String) : Leaf (fun _ f => .miss i e f : Rule α)
  | declare (i : Nat) (id : String) : Leaf (Rule.declare i id)

/-- Nested rules that are built. -/
structure Nested.Built (inner : Nested) : Prop where
  /-- Sums. -/
  sum : Parser.Built Leaf inner.sum
  /-- Disjunctions. -/
  disjunction : Parser.Built Leaf inner.disjunction
  /-- Truth values that may be negated. -/
  unary : Parser.Built Leaf inner.unary
  /-- Texts as operands. -/
  operand : Parser.Built Leaf inner.operand
  /-- What stands between quotes. -/
  quoted : Parser.Built Leaf inner.quoted
  /-- Rests of lines of text. -/
  textLine : Parser.Built Leaf inner.textLine
  /-- Lines of one level. -/
  script : Parser.Built Leaf inner.script

/-- Operands are built, whatever their category is. -/
theorem Nested.Built.expr (h : inner.Built) : (k : Category) → Parser.Built Leaf (inner.expr k)
  | .number => h.sum
  | .boolean => h.disjunction
  | .text => h.operand

/-! ## Names and operators -/

section

variable {σ : Type} {L : ∀ {α : Type}, Parser σ α → Prop} {p : Parser σ α}

/-- A character is read by an elementary parser. -/
theorem built_char (x : Char) : Built L (char x) := .elementary (.satisfy _ _)

/-- Blanks are read by one run over them. -/
theorem built_blanks : Built L blanks := .elementary (.takeWhile _)

/-- One blank at least is read by one run as well. -/
theorem built_blanks1 : Built L blanks1 := .elementary (.takeWhile1 _ _)

/-- White space is read by one run, line breaks included. -/
theorem built_spaces : Built L spaces := .elementary (.takeWhile _)

/-- A word is elementary: where it ends is looked at, and not read by another parser. -/
theorem built_keyword (word : String) : Built L (keyword word) := .elementary (.keyword _)

/-- A spelling is elementary. -/
theorem built_tag (text : String) : Built L (tag text) := .elementary (.tag _)

/-- A look at the column is elementary. -/
theorem built_indentation (accepts : Nat → Nat → Bool) (what : Nat → String) :
    Built L (indentation accepts what) :=
  .elementary (.indentation _ _)

/-- A look at the offset is elementary. -/
theorem built_position : Built L position := .elementary .position

/-- A line ends with a line break, or with the source. -/
theorem built_eol : Built L eol := .orElse (.elementary .newline) (.elementary .eof)

/-- A token is what is behind white space, if its line is indented enough. -/
theorem built_lexeme (hp : Built L p) : Built L (lexeme p) :=
  built_spaces.bind fun _ => (built_indentation _ _).bind fun _ => hp

/-- A name is a run of word characters that is refused by how it starts. -/
theorem built_identifier : Built L identifier :=
  .map (.filter (.filter (.elementary (.takeWhile1 _ _))))

/-- A name that is no word of the grammar is a name that is not refused. -/
theorem built_unreserved : Built L unreserved := .filter built_identifier

/-- A variable is a name with no parenthesis behind it. -/
theorem built_variableName : Built L variableName :=
  built_unreserved.seqLeft (.notFollowedBy (built_char _))

/-- An operator is spelled by a word or by signs. -/
theorem built_symbol (spelling : String) : Built L (symbol spelling) :=
  .ite (built_keyword _) (built_tag _)

end

/-- Spellings are tried one after the other. -/
theorem built_spelled : (spellings : List String) → Built Leaf (spelled spellings)
  | [] => .elementary (.expected _)
  | [_] => built_symbol _
  | _ :: s :: rest => .orElse (built_symbol _) (built_spelled (s :: rest))

/-- An operator is a token with one of its spellings. -/
theorem built_operator (a : α) (spellings : List String) : Built Leaf (operator a spellings) :=
  (built_lexeme (built_spelled spellings)).bind fun _ => .pure a

/-- A comparison is spelled in four ways, the longest one first. -/
theorem built_compareSign : Built Leaf compareSign :=
  built_lexeme <|
    ((built_keyword _).bind fun _ => built_blanks1.bind fun _ => (built_keyword _).bind fun _ =>
        .pure _).orElse <|
      (built_tag _).map.orElse <| (built_keyword _).map.orElse (built_tag _).map

/-- Parentheses are tokens around what they enclose. -/
theorem built_parenthesized {p : Rule α} (hp : Built Leaf p) : Built Leaf (parenthesized p) :=
  (built_lexeme (built_char _)).bind fun _ => hp.bind fun _ =>
    (built_lexeme (built_char _)).bind fun _ => .pure _

/-! ## Arithmetic -/

/-- A variable is recorded at the offset where its name starts. -/
theorem built_variableOf {k : Category} : Built Leaf (variableOf k) :=
  built_position.bind fun _ => built_variableName.bind fun _ =>
    (Built.elementary (.record _)).bind fun _ => .pure _

/-- Arguments are operands of the categories that are asked for, with commas between them. -/
theorem built_arguments (h : inner.Built) {wrongCount : Rule Unit} (hwrong : Built Leaf wrongCount)
    (first : Bool) (ks : List Category) : Built Leaf (arguments inner wrongCount first ks) := by
  induction ks generalizing first with
  | nil => exact .pure _
  | cons k ks ih =>
    rw [arguments]
    dsimp only
    have hargs : Built Leaf (do
        let e ← inner.expr k
        let rest ← arguments inner wrongCount false ks
        return Args.cons e rest : Rule Args) :=
      (h.expr k).bind fun _ => (ih false).bind fun _ => .pure _
    have hmark (x : Char) : Built Leaf (lexeme (char x)) := built_lexeme (built_char x)
    have hstop (b : Bool) {p : Rule Args} (hp : Built Leaf p) :
        Built Leaf (if b then wrongCount >>= fun _ => p else p) :=
      .ite (hwrong.bind fun _ => hp) hp
    refine (hmark _).wouldMatch.bind fun _ => hstop _ ?_
    split
    · exact hargs
    · exact (hmark _).optional.bind fun _ => hstop _ hargs

/-- A call is a name with its arguments in parentheses, or one of three failures. -/
theorem built_call (h : inner.Built) {k : Category} : Built Leaf (call registry inner k) := by
  rw [call]
  refine built_position.bind fun i => built_unreserved.bind fun name => ?_
  refine (built_char _).bind fun _ => ?_
  cases registry name with
  | none => exact .of_leaf (.fatalAt _ _)
  | some s =>
    have hwrong : Built Leaf (fatalAt i (.argumentCount name s.params.length) : Rule Unit) :=
      .of_leaf (.fatalAt _ _)
    refine .ite (.of_leaf (.missAt _ _)) ?_
    refine (built_arguments h hwrong true s.params).bind fun args => ?_
    refine (built_lexeme (built_char _)).optional.bind fun _ => ?_
    exact .ite (hwrong.bind fun _ => .pure _) (.pure _)

/-- A factor is a number, a call, a variable or a sum in parentheses. -/
theorem built_factor (h : inner.Built) : Built Leaf (factor registry inner) :=
  (built_parenthesized h.sum).orElse <| (built_lexeme (.elementary .number)).map.orElse <|
    (built_lexeme (built_call h)).orElse (built_lexeme built_variableOf)

/-- Products are chains of factors. -/
theorem built_product (h : inner.Built) : Built Leaf (product registry inner) :=
  (built_factor h).chainLeft ((built_operator _ _).orElse (built_operator _ _))

/-- Sums are chains of products. -/
theorem built_sum (h : inner.Built) : Built Leaf (sum registry inner) :=
  (built_product h).chainLeft ((built_operator _ _).orElse (built_operator _ _))

/-! ## Quotes -/

/-- A substitution is a variable alone, or else a number, a truth value or a text. -/
theorem built_substitution (h : inner.Built) : Built Leaf (substitution inner) := by
  have hclose : Built Leaf (do let _ ← spaces; discard (char closeBrace) : Rule Unit) :=
    built_spaces.bind fun _ => (built_char _).discard
  refine (built_char _).bind fun _ => .orElse ?_ (.orElse ?_ (.orElse ?_ ?_))
  · exact built_spaces.bind fun _ => built_variableName.bind fun _ => hclose.bind fun _ => .pure _
  · exact (h.sum.seqLeft hclose).map
  · exact (h.disjunction.seqLeft hclose).map
  · exact h.operand.seqLeft hclose

/-- An escape is a backslash before one of the characters that may be escaped. -/
theorem built_escape : Built Leaf escape :=
  (built_char _).bind fun _ => (built_char _).map.orElse <| (built_char _).map.orElse <|
    (built_char _).orElse <| (built_char _).orElse (built_char _)

/-- Between quotes there are runs of plain characters, with a piece behind each but the last. -/
theorem built_quoted (h : inner.Built) : Built Leaf (quoted inner) := by
  refine (Built.elementary (.takeWhile _)).bind fun run => ?_
  refine (Built.elementary (.satisfy _ _)).lookAhead.bind fun _ => ?_
  refine built_escape.optional.bind fun escaped => ?_
  cases escaped with
  | some x =>
    refine (Built.pure _).bind fun piece => ?_
    cases piece with
    | some _ => exact h.quoted.bind fun _ => .pure _
    | none => exact .pure _
  | none =>
    refine (built_substitution h).optional.bind fun piece => ?_
    cases piece with
    | some _ => exact h.quoted.bind fun _ => .pure _
    | none => exact .pure _

/-- A text in quotes is what stands between two quotation marks. -/
theorem built_quote (h : inner.Built) : Built Leaf (quote inner) :=
  (built_char _).bind fun _ => (built_quoted h).bind fun _ => (built_char _).bind fun _ => .pure _

/-- A text as an operand is in quotes, a call or a variable. -/
theorem built_operand (h : inner.Built) : Built Leaf (operand registry inner) :=
  (built_lexeme (built_quote h)).orElse <|
    (built_lexeme (built_call h)).orElse (built_lexeme built_variableOf)

/-! ## Logic -/

/-- A truth value alone is in parentheses, one of two words, a call or a variable. -/
theorem built_boolean (h : inner.Built) : Built Leaf (boolean registry inner) :=
  (built_parenthesized h.disjunction).orElse <| (built_lexeme (built_keyword _)).map.orElse <|
    (built_lexeme (built_keyword _)).map.orElse <| (built_lexeme (built_call h)).orElse <|
    built_lexeme built_variableOf

/-- Two variables are compared unless an arithmetic sign is behind them. -/
theorem built_variableComparison : Built Leaf variableComparison :=
  built_spaces.bind fun _ => (built_indentation _ _).bind fun _ => built_position.bind fun _ =>
    built_variableName.bind fun _ => built_compareSign.bind fun _ =>
    (built_lexeme built_variableName).bind fun _ => (built_operator _ _).notFollowedBy.bind fun _ =>
    (Built.elementary (.record _)).bind fun _ => .pure _

/-- Two operands of one category are compared with a sign between them. -/
theorem built_comparisonOf {k : Category} {p : Rule (Expr k)} (hp : Built Leaf p) :
    Built Leaf (comparisonOf p) :=
  hp.bind fun _ => built_compareSign.bind fun _ => hp.bind fun _ => .pure _

/-- The comparisons are tried one after the other. -/
theorem built_comparison (h : inner.Built) : Built Leaf (comparison registry inner) :=
  built_variableComparison.orElse <| (built_comparisonOf (built_boolean h)).orElse <|
    (built_comparisonOf (built_sum h)).orElse (built_comparisonOf (built_operand h))

/-- A reading of truth values looks for an arithmetic sign before it answers. -/
theorem built_booleanReading (h : inner.Built) : Built Leaf (booleanReading registry inner) := by
  have hunless (e : Expr .boolean) : Built Leaf
      (do return if ← wouldMatch arithmeticSign then none else some e : Rule _) :=
    (built_operator _ _).wouldMatch.bind fun _ => .pure _
  have hboolean : Built Leaf (optional (boolean registry inner)) := (built_boolean h).optional
  refine hboolean.bind fun l => ?_
  cases l with
  | none => exact .pure _
  | some l =>
    refine built_compareSign.optional.bind fun op => ?_
    cases op with
    | none => exact hunless l
    | some op =>
      refine hboolean.bind fun r => ?_
      cases r with
      | none => exact .pure _
      | some r => exact hunless _

/-- A value or another reading is what is read again where there is no value. -/
theorem insteadOf_eq (p : Rule (Option α)) (q : Rule α) : insteadOf p q = p.reread q := by
  funext c f
  rw [insteadOf, Parser.reread]
  rcases p c f with (_ | _) | _ | _ <;> rfl

/-- What a reading does not answer is read again by another rule. -/
theorem built_insteadOf {p : Rule (Option α)} {q : Rule α} (hp : Built Leaf p)
    (hq : Built Leaf q) : Built Leaf (insteadOf p q) := by
  rw [insteadOf_eq]
  exact hp.reread hq

/-- A relation is read with truth values first, and with numbers and texts instead. -/
theorem built_relation (h : inner.Built) : Built Leaf (relation registry inner) :=
  built_insteadOf built_variableComparison.optional <| built_insteadOf (built_booleanReading h) <|
    (built_comparisonOf (built_sum h)).orElse (built_comparisonOf (built_operand h))

/-- A negation is a sign with what it negates, which may be negated as well. -/
theorem built_negation (h : inner.Built) : Built Leaf (negation inner) := by
  have hbang : Built Leaf (tag "!" <* notFollowedBy (char '=') "'!'" : Rule String) :=
    (built_tag _).seqLeft (built_char _).notFollowedBy
  refine (built_lexeme ((built_keyword _).orElse hbang)).bind fun _ => ?_
  exact h.unary.bind fun _ => .pure _

/-- What may be negated is a negation or a relation. -/
theorem built_unary (h : inner.Built) : Built Leaf (unary registry inner) :=
  (built_negation h).orElse (built_relation h)

/-- Conjunctions are chains of what may be negated. -/
theorem built_conjunction (h : inner.Built) : Built Leaf (conjunction registry inner) :=
  (built_unary h).chainLeft (built_operator _ _)

/-- Exclusive disjunctions are chains of conjunctions. -/
theorem built_exclusive (h : inner.Built) : Built Leaf (exclusive registry inner) :=
  (built_conjunction h).chainLeft (built_operator _ _)

/-- Disjunctions are chains of exclusive ones. -/
theorem built_disjunction (h : inner.Built) : Built Leaf (disjunction registry inner) :=
  (built_exclusive h).chainLeft (built_operator _ _)

/-! ## Lines of text -/

/-- A line of text is a run of pieces, and ends with the line. -/
theorem built_textLine (h : inner.Built) : Built Leaf (textLine inner) := by
  refine built_blanks1.optional.bind fun _ => ?_
  refine (Built.elementary (.takeWhile _)).bind fun run => built_eol.wouldMatch.bind fun _ => ?_
  refine .ite ?_ ?_
  · split
    · exact .pure _
    · exact .pure _
  · exact (built_substitution h).bind fun _ => h.textLine.bind fun _ => .pure _

/-- A text is a block of lines that are indented. -/
theorem built_text (h : inner.Built) : Built Leaf (text inner) :=
  .map (.block (built_textLine h) (built_indentation _ _) 1)

/-- The mark of a prompt takes the blanks behind it. -/
theorem built_promptMark : Built Leaf promptMark :=
  (built_char _).bind fun _ => built_blanks.discard

/-- A prompt is a block of lines with a mark each. -/
theorem built_prompt (h : inner.Built) : Built Leaf (prompt inner) :=
  .map <| .block (built_promptMark.seqRight (built_textLine h))
    ((built_indentation _ _).seqLeft built_promptMark.lookAhead) 1

/-! ## Statements -/

/-- A line of dialogue is a speaker, who may be missing, a mark and a text. -/
theorem built_dialog (h : inner.Built) (mark : Char) : Built Leaf (dialog inner mark) :=
  .atOwnIndent <| built_identifier.optional.bind fun _ => built_blanks.bind fun _ =>
    (built_char _).bind fun _ => built_spaces.bind fun _ => (built_text h).bind fun _ => .pure _

/-- The view is cleared by a word, behind which another one may say what is cleared. -/
theorem built_clear : Built Leaf clear := by
  refine (built_keyword _).bind fun _ => ?_
  refine (built_blanks1.seqLeft built_eol.notFollowedBy).optional.bind fun asked => ?_
  cases asked with
  | none => exact .pure _
  | some _ =>
    exact .map <| (built_keyword _).map.orElse <| (built_keyword _).map.orElse (built_keyword _).map

/-- An id stands in brackets. -/
theorem built_bracketed : Built Leaf bracketed :=
  (built_char _).bind fun _ => built_blanks.bind fun _ => built_identifier.bind fun _ =>
    built_blanks.bind fun _ => (built_char _).bind fun _ => .pure _

/-- A jump is a word with the id of a block. -/
theorem built_jump : Built Leaf jump :=
  (built_keyword _).bind fun _ => built_blanks1.bind fun _ => built_position.bind fun _ =>
    (built_bracketed.orElse built_identifier).bind fun _ =>
    (Built.elementary (.record _)).bind fun _ => .pure _

/-- A unit of time is one of six words. -/
theorem built_timeUnit : Built Leaf timeUnit :=
  have hword (w w' : String) : Built Leaf (keyword w <|> keyword w' : Rule _) :=
    (built_keyword w).orElse (built_keyword w')
  (hword _ _).map.orElse <| (hword _ _).map.orElse (hword _ _).map

/-- A pause is a sum with a unit of time behind it. -/
theorem built_pause (h : inner.Built) : Built Leaf (pause registry inner) :=
  (built_keyword _).bind fun _ => built_blanks1.bind fun _ => (built_sum h).bind fun _ =>
    built_blanks.bind fun _ => built_timeUnit.bind fun _ => .pure _

/-- A node is one of the statements, tried one after the other. -/
theorem built_node (h : inner.Built) : Built Leaf (node registry inner) :=
  (built_dialog h ':').map.orElse <| (built_dialog h '+').map.orElse <| built_clear.orElse <|
    (built_keyword _).map.orElse <| built_jump.orElse <| (built_keyword _).map.orElse <|
    (built_pause h).orElse (built_keyword _).map

/-! ## Passages -/

/-- A claim of an id is a leaf of the grammar. -/
theorem built_declare (i : Nat) (id : String) : Built Leaf (Rule.declare i id) :=
  .of_leaf (.declare i id)

/-- A passage is below a line if it is indented more. -/
theorem built_below (h : Built Leaf inner.script) : Built Leaf (below inner) :=
  Built.lineEnd.bind fun _ => built_spaces.bind fun _ => (built_indentation _ _).bind fun _ => h

/-- A label claims its id before the passage below it is read. -/
theorem built_label (h : inner.Built) : Built Leaf (label inner) :=
  (built_keyword _).bind fun _ => built_blanks1.bind fun _ => built_position.bind fun i =>
    built_bracketed.bind fun id => (built_declare i id).bind fun _ =>
    (built_below h.script).bind fun _ => .pure _

/-- An option is a prompt with a passage below it. -/
theorem built_option (h : inner.Built) : Built Leaf (option inner) :=
  built_position.bind fun _ => (built_prompt h).bind fun _ =>
    (built_below h.script).bind fun _ => .pure _

/-- Options claim their ids one after the other. -/
theorem built_nameOptions (explicit : Option String) (us : List Unnamed) :
    Built Leaf (nameOptions explicit us) := by
  induction us generalizing explicit with
  | nil => exact .pure _
  | cons u rest ih =>
    cases explicit with
    | some id => exact .map (ih none)
    | none =>
      have hname : Built Leaf (do
          Rule.declare u.index (promptId u.prompt.text)
          (Outline.option (promptId u.prompt.text) u.prompt u.body ·) <$> nameOptions none rest :
            Rule Outline) :=
        (built_declare _ _).bind fun _ => .map (ih none)
      refine (Built.elementary .journal).bind fun _ => ?_
      exact .ite ((Built.of_leaf (.fatalAt _ _)).bind fun _ => hname) hname

/-- A choice claims its own id first, and those of its options once all of them are read. -/
theorem built_choice (h : inner.Built) : Built Leaf (choice inner) := by
  have hoptions (explicit : Option String) : Built Leaf (do
      lineEnd
      let _ ← spaces
      let _ ← indented
      let options ← atOwnIndent (block (option inner) (same <* lookAhead (char '>')) 1)
      nameOptions explicit options : Rule Outline) := by
    refine Built.lineEnd.bind fun _ => built_spaces.bind fun _ => ?_
    refine (built_indentation _ _).bind fun _ => Built.bind (.atOwnIndent ?_) fun us =>
      built_nameOptions explicit us
    exact .block (built_option h) ((built_indentation _ _).seqLeft (built_char _).lookAhead) 1
  refine (built_keyword _).bind fun _ => ?_
  refine Built.bind (.optional ?_) fun named => ?_
  · exact built_blanks1.bind fun _ => built_position.bind fun _ => built_bracketed.bind fun _ =>
      .pure _
  · cases named with
    | none => exact hoptions none
    | some named => exact (built_declare _ _).bind fun _ => hoptions (some named.2)

/-- A line is a node, a choice or a label. -/
theorem built_line (h : inner.Built) : Built Leaf (line registry inner) :=
  (built_node h).map.orElse <| (built_choice h).orElse (built_label h)

/-- A script is a block of lines at one column. -/
theorem built_script (h : inner.Built) : Built Leaf (script registry inner) :=
  built_spaces.bind fun _ =>
    Built.bind (.atOwnIndent (.block (built_line h) (built_indentation _ _) 0)) fun _ => .pure _

/-! ## Rules with all that is nested in them -/

/-- The rules that are nested to a depth are built, by induction on the depth. -/
theorem built_upTo (depth : Nat) : (Nested.upTo registry depth).Built := by
  induction depth with
  | zero =>
    have hstop {α : Type} : Built Leaf (fun c f => .fatal c.index .endless f : Rule α) :=
      .elementary (.fatal .endless)
    exact ⟨hstop, hstop, hstop, hstop, hstop, hstop, hstop⟩
  | succ depth ih =>
    exact ⟨built_sum ih, built_disjunction ih, built_unary ih, built_operand ih, built_quoted ih,
      built_textLine ih, built_script ih⟩

/-- A rule that is built whatever is nested in it is built with all nesting that a source can need.
    -/
theorem built_complete {rule : Nested → Rule α}
    (h : ∀ {inner}, inner.Built → Built Leaf (rule inner)) :
    Built Leaf (complete registry rule) :=
  @Built.delayed _ _ _ (fun c => rule (.upTo registry c.remaining)) fun _ => h (built_upTo _)

/-- The rule of a whole source is built. -/
theorem built_source : Built Leaf (source registry) := by
  let blank : Rule Outline := do
    let _ ← spaces
    return .nil
  let lines (start : Cursor) : Rule Outline := do
    let outline ← complete registry (script registry)
    let _ ← spaces
    notFollowedBy anyChar s!"line indented to column {(start.skipWhile Text.isSpace).column}"
    return outline
  have hmake : source registry = fun start f =>
      (if (start.skipWhile Text.isSpace).atEnd then blank else lines start) start f := by
    funext start f
    simp only [source]
    split
    · rfl
    · rfl
  rw [hmake]
  refine .delayed fun start => .ite ?_ ?_
  · exact built_spaces.bind fun _ => .pure _
  · exact (built_complete built_script).bind fun _ => built_spaces.bind fun _ =>
      (Built.elementary (.satisfy _ _)).notFollowedBy.bind fun _ => .pure _

end Dialogue.Grammar
