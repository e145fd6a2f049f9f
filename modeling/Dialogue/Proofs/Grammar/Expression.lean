import Dialogue.Grammar.Logic
import Dialogue.Proofs.Compile.Log
import Dialogue.Proofs.Parser.Triple

/-!
# The facts of expressions

Whatever a rule for expressions answers, the facts it adds are those of the answer
(`Records`): what was tried and given up has left none, and what the answer is made of has
kept all of its own. Rules are nested in each other, so this is shown of each rule on the
assumption that the nested ones have the property (`Nested.Records`).

The same text is often read several times, as arithmetic, as a truth value, as a text.
Each new try starts from the facts before the first one, which is what the rules of a
triple for alternatives say; only `insteadOf`, which gives up an answer, needs one of its
own (`triple_insteadOf`).
-/

namespace Dialogue

open Dialogue.Parser

variable {α : Type}

/-- Where a rule answers something, its facts are added to those so far. -/
def Rule.Records (registry : Grammar.Registry) (log : α → Log) (p : Rule α) : Prop :=
  ∀ l, Triple (Facts.Match registry · l) p fun a f => f.Match registry (l ++ log a)

namespace Rule.Records

variable {β : Type} {registry : Grammar.Registry} {log : α → Log} {p q : Rule α}

/-- An alternative records, since what was given up has left nothing. -/
theorem orElse (hp : p.Records registry log) (hq : q.Records registry log) :
    Records registry log (p <|> q) :=
  fun l => (hp l).orElse (hq l)

/-- A function that keeps the log may be applied to the answers. -/
theorem map {log' : β → Log} {g : α → β} (hp : p.Records registry log)
    (hg : ∀ a, log' (g a) = log a) : Records registry log' (g <$> p) :=
  fun l => .map ((hp l).mono fun a f h => by rwa [hg])

/-- A silent rule may answer what has nothing to be noted. -/
theorem of_silent (hp : Silent p) (hlog : ∀ a, log a = .empty) : p.Records registry log :=
  fun l => (hp _).mono fun a f h => by rwa [hlog, Log.append_empty]

/-- A rule records at its own column too. -/
theorem atOwnIndent (hp : p.Records registry log) : Records registry log (Parser.atOwnIndent p) :=
  fun l => (hp l).atOwnIndent

/-- Silence before a rule adds nothing. -/
theorem after {s : Rule β} (hs : Silent s) (hp : p.Records registry log) :
    Records registry log (s >>= fun _ => p) :=
  fun l => (hs _).bind fun _ => hp l

/-- Silence after a rule adds nothing. -/
theorem before {s : Rule β} (hp : p.Records registry log) (hs : Silent s) :
    Records registry log (p <* s) :=
  fun l => (hp l).seqLeft fun _ => hs _

end Rule.Records

namespace Grammar

variable {σ : Type} {registry : Registry} {k : Category}

/-! ## Names and operators -/

/-- A token is as silent as what it reads. -/
theorem silent_lexeme {p : Parser σ α} (hp : Silent p) : Silent (lexeme p) :=
  silent_spaces.bind fun _ => silent_sameOrIndented.bind fun _ => hp

/-- A name leaves no fact. -/
theorem silent_identifier : Silent (identifier : Parser σ String) :=
  (silent_takeWhile1 _ _).filter.filter.map

/-- A name that is no word of the grammar leaves no fact. -/
theorem silent_unreserved : Silent (unreserved : Parser σ String) := silent_identifier.filter

/-- The name of a variable leaves no fact: its use is noted by another rule. -/
theorem silent_variableName : Silent (variableName : Parser σ String) :=
  silent_unreserved.seqLeft silent_notFollowedBy

/-- Spellings leave no fact. -/
theorem silent_spelled : (spellings : List String) → Silent (spelled spellings)
  | [] => silent_expected _
  | [_] => silent_symbol _
  | _ :: s :: rest => (silent_symbol _).orElse (silent_spelled (s :: rest))

/-- An operator answers what it stands for. -/
theorem triple_operator {P : Facts → Prop} (a : α) (spellings : List String) :
    Triple P (operator a spellings) fun b f => P f ∧ b = a :=
  (silent_lexeme (silent_spelled spellings) P).bind fun _ => .pure fun _ h => ⟨h, rfl⟩

/-- The sign of a comparison leaves no fact. -/
theorem silent_compareSign : Silent compareSign :=
  silent_lexeme <|
    ((silent_keyword _).bind fun _ => silent_blanks1.bind fun _ => (silent_keyword _).bind fun _ =>
        .pure _).orElse <|
      (silent_tag _).map.orElse <| (silent_keyword _).map.orElse (silent_tag _).map

/-- A token records what it reads. -/
theorem records_lexeme {log : α → Log} {p : Rule α} (hp : p.Records registry log) :
    Rule.Records registry log (lexeme p) :=
  .after silent_spaces (.after silent_sameOrIndented hp)

/-- Parentheses record what they enclose. -/
theorem records_parenthesized {log : α → Log} {p : Rule α} (hp : p.Records registry log) :
    Rule.Records registry log (parenthesized p) :=
  fun l => (silent_lexeme (silent_char _) _).bind fun _ => (hp l).bind fun _ =>
    (silent_lexeme (silent_char _) _).bind fun _ => .pure fun _ h => h

/-- Operands joined by an operator in one of its spellings, or by another one. -/
theorem records_chainLeft {operand : Rule (Expr k)} {operator : Rule (Expr k → Expr k → Expr k)}
    (hp : operand.Records registry Expr.log)
    (hop : ∀ P : Facts → Prop, Triple P operator fun g f =>
      P f ∧ ∀ a b, (g a b).mentions = a.mentions ++ b.mentions) :
    Rule.Records registry Expr.log (chainLeft operand operator) := by
  refine fun l => .chainLeft (hp l) fun a => ?_
  refine (hop _).bind fun g => ?_
  -- The log of both operands is that of the operation.
  refine Triple.bind (Q := fun b f => f.Match registry (l ++ a.log ++ b.log) ∧
    (g a b).mentions = a.mentions ++ b.mentions) ?_ fun b => .pure fun f h => ?_
  · rintro c f b c' f' ⟨hf, hg⟩ hb
    exact ⟨hp _ hf hb, hg a b⟩
  · obtain ⟨hf, hg⟩ := h
    rwa [Log.append_assoc, show a.log ++ b.log = (g a b).log from Log.ext rfl rfl hg.symm] at hf

/-- Nested rules that keep the facts of what they answer. -/
structure Nested.Records (registry : Registry) (inner : Nested) : Prop where
  /-- Sums. -/
  sum : Rule.Records registry Expr.log inner.sum
  /-- Disjunctions. -/
  disjunction : Rule.Records registry Expr.log inner.disjunction
  /-- Truth values that may be negated. -/
  unary : Rule.Records registry Expr.log inner.unary
  /-- Texts as operands. -/
  operand : Rule.Records registry Expr.log inner.operand
  /-- What stands between quotes. -/
  quoted : Rule.Records registry Expr.log inner.quoted
  /-- Rests of lines of text. -/
  textLine : Rule.Records registry Expr.log inner.textLine
  /-- Lines of one level. -/
  script : Rule.Records registry Outline.log inner.script

variable {inner : Nested}

/-- Nested operands record, whatever their category is. -/
theorem Nested.Records.expr (hinner : inner.Records registry) :
    (k : Category) → Rule.Records registry Expr.log (inner.expr k)
  | .number => hinner.sum
  | .boolean => hinner.disjunction
  | .text => hinner.operand

/-! ## Arithmetic -/

/-- A variable records its use. -/
theorem records_variableOf : Rule.Records registry Expr.log (variableOf k) := by
  intro l
  refine silent_position.triple.bind fun _ => ?_
  refine silent_variableName.triple.bind fun _ => ?_
  exact (Triple.record fun _ h => h.note).bind fun _ => .pure fun _ h => h

/-- Arguments record what is used in them, in order, and have the categories asked for. -/
theorem triple_arguments (hinner : inner.Records registry) {wrongCount : Rule Unit}
    (hwrong : ∀ P R, Triple P wrongCount R) (first : Bool) (ks : List Category) (l : Log) :
    Triple (Facts.Match registry · l) (arguments inner wrongCount first ks)
      fun args f => f.Match registry (l ++ args.log) ∧ args.categories = ks := by
  induction ks generalizing first l with
  | nil =>
    refine .pure fun f h => ⟨?_, rfl⟩
    rwa [show Args.nil.log = .empty from rfl, Log.append_empty]
  | cons k ks ih =>
    rw [arguments]
    dsimp only
    -- The checks for a wrong number of arguments either stop or add nothing.
    have hargs : Triple (Facts.Match registry · l)
        (do
          let e ← inner.expr k
          let rest ← arguments inner wrongCount false ks
          return Args.cons e rest)
        fun args f => f.Match registry (l ++ args.log) ∧ args.categories = k :: ks := by
      refine (hinner.expr k l).bind fun e => (ih false (l ++ e.log)).bind fun rest => .pure ?_
      rintro f ⟨hf, hks⟩
      rw [Log.append_assoc] at hf
      exact ⟨hf, congrArg (k :: ·) hks⟩
    refine silent_wouldMatch.triple.bind fun _ => .stopIf (hwrong _) ?_
    split
    · exact hargs
    · exact (silent_lexeme (silent_char _)).optional.triple.bind fun _ => .stopIf (hwrong _) hargs

/-- A call records itself and its arguments. -/
theorem records_call (hinner : inner.Records registry) :
    Rule.Records registry Expr.log (call registry inner k) := by
  intro l
  rw [call]
  refine silent_position.triple.bind fun i => ?_
  refine silent_unreserved.triple.bind fun name => ?_
  refine (silent_char _).triple.bind fun _ => ?_
  cases hs : registry name with
  | none => exact .fatalAt
  | some s =>
    dsimp only
    refine .ite (fun _ _ _ _ _ _ _ h => nomatch h) fun hk => ?_
    refine (triple_arguments hinner (fun _ _ => .fatalAt) true s.params l).bind fun args => ?_
    refine (silent_lexeme (silent_char _)).optional.triple.bind fun _ => ?_
    exact .stopIf (fun _ => .fatalAt) <| .pure fun f ⟨hf, hargs⟩ =>
      hf.call hs (Decidable.not_not.1 hk) hargs

/-- A literal has nothing to record. -/
theorem records_literal {α : Type} {p : Rule α} {v : α → k.Carrier} (hp : Silent p) :
    Rule.Records registry Expr.log ((fun a => Expr.literal (v a)) <$> p) :=
  fun _ => .map <| (hp _).mono fun _ _ h => by rwa [Expr.log_literal, Log.append_empty]

/-- The operands of arithmetic record. -/
theorem records_factor (hinner : inner.Records registry) :
    Rule.Records registry Expr.log (factor registry inner) :=
  (records_parenthesized hinner.sum).orElse <|
    (records_literal (silent_lexeme silent_number)).orElse <|
      (records_lexeme (records_call hinner)).orElse (records_lexeme records_variableOf)

/-- An operator puts what the right operand mentions after what the left one does. -/
theorem triple_joining {P : Facts → Prop} {build : Expr k → Expr k → Expr k}
    (h : ∀ a b, (build a b).mentions = a.mentions ++ b.mentions) (spellings : List String) :
    Triple P (operator build spellings) fun g f =>
      P f ∧ ∀ a b, (g a b).mentions = a.mentions ++ b.mentions :=
  (triple_operator build spellings).mono fun _ _ ⟨hP, hg⟩ => ⟨hP, hg ▸ h⟩

/-- Products and quotients record. -/
theorem records_product (hinner : inner.Records registry) :
    Rule.Records registry Expr.log (product registry inner) :=
  records_chainLeft (records_factor hinner) fun _ =>
    (triple_joining (fun _ _ => rfl) _).orElse (triple_joining (fun _ _ => rfl) _)

/-- Sums and differences record. -/
theorem records_sum (hinner : inner.Records registry) :
    Rule.Records registry Expr.log (sum registry inner) :=
  records_chainLeft (records_product hinner) fun _ =>
    (triple_joining (fun _ _ => rfl) _).orElse (triple_joining (fun _ _ => rfl) _)

/-! ## Quotes -/

/-- What is put into text in braces records. -/
theorem records_substitution (hinner : inner.Records registry) :
    Rule.Records registry Expr.log (substitution inner) := by
  have hclose : Silent (do let _ ← spaces; discard (char closeBrace) : Rule Unit) :=
    silent_spaces.bind fun _ => (silent_char _).discard
  have hshown : Rule.Records registry Expr.log (do
      let _ ← spaces
      let name ← variableName
      let _ ← (do let _ ← spaces; discard (char closeBrace) : Rule Unit)
      return Expr.interpolate name) := fun _ =>
    silent_spaces.triple.bind fun _ => silent_variableName.triple.bind fun _ =>
      hclose.triple.bind fun _ => .pure fun _ h => h.mention rfl trivial
  refine .after (silent_char _) (hshown.orElse (.orElse ?_ (.orElse ?_ ?_)))
  · exact (hinner.sum.before hclose).map fun e => Expr.log_eq e.mentions_simplify
  · exact (hinner.disjunction.before hclose).map fun e => Expr.log_eq e.mentions_simplify
  · exact hinner.operand.before hclose

/-- An escaped character leaves no fact. -/
theorem silent_escape : Silent escape :=
  (silent_char _).bind fun _ => (silent_char _).map.orElse <| (silent_char _).map.orElse <|
    (silent_char _).orElse <| (silent_char _).orElse (silent_char _)

/-- A piece is joined to a literal before it and to what comes after it. -/
theorem triple_joinPiece {p : Rule (Expr .text)} (hp : Rule.Records registry Expr.log p) (l : Log)
    (head piece : Expr .text) (hhead : head.log = .empty) :
    Triple (Facts.Match registry · (l ++ piece.log))
      (do
        let rest ← p
        return Expr.concat (Expr.concat head piece) rest)
      fun e f => f.Match registry (l ++ e.log) := by
  refine (hp _).bind fun rest => .pure fun _ h => ?_
  rwa [Expr.log_concat, Expr.log_concat, hhead, Log.empty_append, ← Log.append_assoc]

/-- The inside of quotes records what is put into it. -/
theorem records_quoted (hinner : inner.Records registry) :
    Rule.Records registry Expr.log (quoted inner) := by
  intro l
  refine (silent_takeWhile _).triple.bind fun run => silent_lookAhead.triple.bind fun _ => ?_
  refine .optionalBind silent_escape.triple (fun c => ?_) ?_
  · -- An escaped character is a literal and has nothing to be noted.
    refine (triple_joinPiece hinner.quoted l _ _ (Expr.log_literal _)).pre fun _ h => ?_
    rwa [Expr.log_literal, Log.append_empty]
  · refine .optionalBind (records_substitution hinner l) (fun piece => ?_) ?_
    · exact triple_joinPiece hinner.quoted l _ _ (Expr.log_literal _)
    · exact .pure fun _ h => by rwa [Expr.log_literal, Log.append_empty]

/-- A quotation records what is put into it. -/
theorem records_quote (hinner : inner.Records registry) :
    Rule.Records registry Expr.log (quote inner) := by
  intro l
  refine (silent_char _).triple.bind fun _ => ?_
  refine (records_quoted hinner l).bind fun e => ?_
  refine (silent_char _).triple.bind fun _ => .pure fun _ h => ?_
  rwa [Expr.log_eq e.mentions_simplify]

/-- The operands of concatenation record. -/
theorem records_operand (hinner : inner.Records registry) :
    Rule.Records registry Expr.log (operand registry inner) :=
  (records_lexeme (records_quote hinner)).orElse <|
    (records_lexeme (records_call hinner)).orElse (records_lexeme records_variableOf)

/-! ## Logic -/

/-- The operands of logic record. -/
theorem records_boolean (hinner : inner.Records registry) :
    Rule.Records registry Expr.log (boolean registry inner) :=
  (records_parenthesized hinner.disjunction).orElse <|
    (records_literal (silent_lexeme (silent_keyword _))).orElse <|
      (records_literal (silent_lexeme (silent_keyword _))).orElse <|
        (records_lexeme (records_call hinner)).orElse (records_lexeme records_variableOf)

/-- A comparison of two variables by name records them both. -/
theorem records_variableComparison :
    Rule.Records registry Expr.log variableComparison := by
  intro l
  refine silent_spaces.triple.bind fun _ => silent_sameOrIndented.triple.bind fun _ => ?_
  refine silent_position.triple.bind fun _ => silent_variableName.triple.bind fun _ => ?_
  refine silent_compareSign.triple.bind fun _ => ?_
  refine (silent_lexeme silent_variableName).triple.bind fun _ => ?_
  refine silent_notFollowedBy.triple.bind fun _ => ?_
  exact (Triple.record fun _ h => h.note).bind fun _ => .pure fun _ h => h

/-- A comparison records its two sides. -/
theorem records_comparisonOf {p : Rule (Expr k)} (hp : Rule.Records registry Expr.log p) :
    Rule.Records registry Expr.log (comparisonOf p) := by
  intro l
  refine (hp l).bind fun a => ?_
  refine silent_compareSign.triple.bind fun _ => ?_
  refine (hp (l ++ a.log)).bind fun b => .pure fun _ h => ?_
  rwa [Log.append_assoc] at h

/-- Where no value is answered nothing is said, because what was read is read anew. -/
theorem triple_booleanReading (hinner : inner.Records registry) (l : Log) :
    Triple (Facts.Match registry · l) (booleanReading registry inner) fun o f =>
      ∀ e, o = some e → f.Match registry (l ++ e.log) := by
  have hunless (e : Expr .boolean) : Triple (Facts.Match registry · (l ++ e.log))
      (do return if ← wouldMatch arithmeticSign then none else some e)
      fun o f => ∀ e, o = some e → f.Match registry (l ++ e.log) :=
    silent_wouldMatch.triple.bind fun b => .pure fun f h e' he => by
      cases b <;> cases he
      exact h
  refine .optionalBind (records_boolean hinner l) (fun a => ?_) (.pure nofun)
  refine .optionalBind silent_compareSign.triple (fun op => ?_) (hunless a)
  refine .optionalBind (records_boolean hinner (l ++ a.log)) (fun b => ?_) (.pure nofun)
  refine (hunless (.compare .boolean op a b)).pre fun f h => ?_
  rwa [Log.append_assoc] at h

/-- An answer that is given up for another one leaves no fact. -/
theorem triple_insteadOf {P : Facts → Prop} {Q : α → Facts → Prop} {p : Rule (Option α)}
    {q : Rule α} (hp : Triple P p fun o f => ∀ a, o = some a → Q a f) (hq : Triple P q Q) :
    Triple P (insteadOf p q) Q := by
  intro c f a c' f' hP h
  rw [Grammar.insteadOf] at h
  split at h
  · rename_i hr
    cases h
    exact hp hP hr _ rfl
  · exact hq hP h
  · cases h
  · cases h

/-- A relation records its operands. -/
theorem records_relation (hinner : inner.Records registry) :
    Rule.Records registry Expr.log (relation registry inner) := by
  intro l
  refine triple_insteadOf ?_ (triple_insteadOf (triple_booleanReading hinner l) (.orElse ?_ ?_))
  · refine .optional ((records_variableComparison l).mono fun e f h e' he => ?_) nofun
    cases he
    exact h
  · exact records_comparisonOf (records_sum hinner) l
  · exact records_comparisonOf (records_operand hinner) l

/-- A negation records its operand. -/
theorem records_negation (hinner : inner.Records registry) :
    Rule.Records registry Expr.log (negation inner) := by
  intro l
  have hbang : Silent (tag "!" <* notFollowedBy (char '=') "'!'" : Rule String) :=
    (silent_tag _).seqLeft silent_notFollowedBy
  refine (silent_lexeme ((silent_keyword _).orElse hbang)).triple.bind fun _ => ?_
  exact (hinner.unary l).bind fun _ => .pure fun _ h => h

/-- A truth value, a relation and a negation record. -/
theorem records_unary (hinner : inner.Records registry) :
    Rule.Records registry Expr.log (unary registry inner) :=
  (records_negation hinner).orElse (records_relation hinner)

/-- A conjunction records its operands. -/
theorem records_conjunction (hinner : inner.Records registry) :
    Rule.Records registry Expr.log (conjunction registry inner) :=
  records_chainLeft (records_unary hinner) fun _ => triple_joining (fun _ _ => rfl) _

/-- An exclusive disjunction records its operands. -/
theorem records_exclusive (hinner : inner.Records registry) :
    Rule.Records registry Expr.log (exclusive registry inner) :=
  records_chainLeft (records_conjunction hinner) fun _ => triple_joining (fun _ _ => rfl) _

/-- A disjunction records its operands. -/
theorem records_disjunction (hinner : inner.Records registry) :
    Rule.Records registry Expr.log (disjunction registry inner) :=
  records_chainLeft (records_exclusive hinner) fun _ => triple_joining (fun _ _ => rfl) _

end Grammar
end Dialogue
