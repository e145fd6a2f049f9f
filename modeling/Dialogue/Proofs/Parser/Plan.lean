import Dialogue.Parser.Checkpoint
import Dialogue.Parser.Layout

/-!
# Plans

A *plan* tells how a parser is put together: which parsers it is made of, its *leaves*, and by
which combinators. A part of a plan may also be a rule that is parsed in *steps* on a
checkpoint, which it may save, go back to, and settle on.

Parsers are functions, and a function does not tell what is run inside it, or what it
writes down on the way. A plan does, so what holds of every parser that is built with the
combinators is said of plans, and shown by induction on them: that the journal is only ever
written to (`Plan.Path`), that a fatal failure is final (`Plan.Runs`), and that a parser
stays in its source.
-/

namespace Dialogue

variable {σ α β : Type}

/-- The value that `p` answers. Where it answers none, what it read is read again, by `q`. -/
def Parser.reread (p : Parser σ (Option α)) (q : Parser σ α) : Parser σ α := fun c j =>
  match p c j with
  | .ok (some a) c' j' => .ok a c' j'
  | .ok none _ _ => q c j
  | .miss i e j' => .miss i e j'
  | .fatal i r j' => .fatal i r j'

/-- The reply of a parser that fails. -/
def Failure.reply (j : σ) : Failure → Reply σ α
  | .miss i e => .miss i e j
  | .fatal i r => .fatal i r j

mutual

/-- How a parser is put together. -/
inductive Plan (σ : Type) : Type → Type 1 where
  /-- A parser that is taken as it is. -/
  | leaf {α : Type} (p : Parser σ α) : Plan σ α
  /-- A plan that is made when it is needed, for the place where it is. -/
  | delayed {α : Type} (make : Cursor → Plan σ α) : Plan σ α
  /-- One after the other; the second may depend on the value of the first. -/
  | bind {α β : Type} (p : Plan σ α) (f : α → Plan σ β) : Plan σ β
  /-- The first, or else the second. -/
  | orElse {α : Type} (p q : Plan σ α) : Plan σ α
  /-- As often as it applies, at least `owed` times. -/
  | many {α : Type} (p : Plan σ α) (owed : Nat) : Plan σ (List α)
  /-- Until the second applies. -/
  | manyTill {α β : Type} (p : Plan σ α) (stop : Plan σ β) : Plan σ (List α)
  /-- Items on lines of their own. -/
  | block {α β : Type} (item : Plan σ α) (continues : Plan σ β) (owed : Nat) :
    Plan σ (List α)
  /-- The value, or nothing. -/
  | optional {α : Type} (p : Plan σ α) : Plan σ (Option α)
  /-- Only some values. -/
  | filter {α : Type} (accepts : α → Bool) (what : String) (p : Plan σ α) : Plan σ α
  /-- Further operands joined to the value so far. -/
  | chainRest {α : Type} (operand : Plan σ α) (operator : Plan σ (α → α → α)) (acc : α) :
    Plan σ α
  /-- Checks that a plan applies. -/
  | lookAhead {α : Type} (p : Plan σ α) : Plan σ Unit
  /-- Checks that a plan does not apply. -/
  | notFollowedBy {α : Type} (p : Plan σ α) (what : String) : Plan σ Unit
  /-- Tells whether a plan applies. -/
  | wouldMatch {α : Type} (p : Plan σ α) : Plan σ Bool
  /-- With its own indentation as the reference. -/
  | atOwnIndent {α : Type} (p : Plan σ α) : Plan σ α
  /-- The value of the first, or else what the second reads from where the first started. -/
  | reread {α : Type} (p : Plan σ (Option α)) (q : Plan σ α) : Plan σ α
  /-- In steps on a checkpoint. -/
  | inSteps {α : Type} (s : Steps σ α) : Plan σ α

/-- What is done on a checkpoint, one thing after the other. -/
inductive Steps (σ : Type) : Type → Type 1 where
  /-- Ends the parse where it is. -/
  | finish {α : Type} (a : α) : Steps σ α
  /-- Ends the parse where it was saved. -/
  | settle {α : Type} (a : α) : Steps σ α
  /-- Runs a plan, and goes on with its value. An attempt is a run of an `optional` plan, and a
      look ahead is one of `wouldMatch`. -/
  | run {α β : Type} (p : Plan σ α) (next : α → Steps σ β) : Steps σ β
  /-- Takes the indentation of the current place as the reference. -/
  | indentHere {α : Type} (next : Steps σ α) : Steps σ α
  /-- Saves the current place and journal. -/
  | commit {α : Type} (next : Steps σ α) : Steps σ α
  /-- Goes back to what was saved. -/
  | rollback {α : Type} (next : Steps σ α) : Steps σ α

end

mutual

/-- The parser that is put together by a plan. -/
def Plan.parser : {α : Type} → Plan σ α → Parser σ α
  | _, .leaf p => p
  | _, .delayed make => fun c j => (make c).parser c j
  | _, .bind p f => p.parser >>= fun a => (f a).parser
  | _, .orElse p q => p.parser <|> q.parser
  | _, .many p owed => p.parser.many owed
  | _, .manyTill p stop => p.parser.manyTill stop.parser
  | _, .block item continues owed => Parser.block item.parser continues.parser owed
  | _, .optional p => p.parser.optional
  | _, .filter accepts what p => p.parser.filter accepts what
  | _, .chainRest operand operator acc =>
    Parser.chainRest operand.parser operator.parser acc
  | _, .lookAhead p => p.parser.lookAhead
  | _, .notFollowedBy p what => p.parser.notFollowedBy what
  | _, .wouldMatch p => p.parser.wouldMatch
  | _, .atOwnIndent p => p.parser.atOwnIndent
  | _, .reread p q => p.parser.reread q.parser
  | _, .inSteps s => fun c j => s.perform (.start c j)

/-- Takes steps on a checkpoint. A plan that fails abandons it. -/
def Steps.perform : {α : Type} → Steps σ α → Checkpoint σ → Reply σ α
  | _, .finish a, t => .ok a t.finish.1 t.finish.2
  | _, .settle a, t => .ok a t.settle.1 t.settle.2
  | _, .run p next, t =>
    match t.run p.parser with
    | (.ok a, t') => (next a).perform t'
    | (.error f, t') => f.reply t'.drop
  | _, .indentHere next, t => next.perform t.indentHere
  | _, .commit next, t => next.perform t.commit
  | _, .rollback next, t => next.perform t.rollback

end

mutual

/-- All leaves of a plan have a property. -/
def Plan.Leaves (P : ∀ {α : Type}, Parser σ α → Prop) : {α : Type} → Plan σ α → Prop
  | _, .leaf p => P p
  | _, .delayed make => ∀ c, (make c).Leaves P
  | _, .bind p f => p.Leaves P ∧ ∀ a, (f a).Leaves P
  | _, .orElse p q => p.Leaves P ∧ q.Leaves P
  | _, .many p _ => p.Leaves P
  | _, .manyTill p stop => p.Leaves P ∧ stop.Leaves P
  | _, .block item continues _ => item.Leaves P ∧ continues.Leaves P
  | _, .optional p => p.Leaves P
  | _, .filter _ _ p => p.Leaves P
  | _, .chainRest operand operator _ => operand.Leaves P ∧ operator.Leaves P
  | _, .lookAhead p => p.Leaves P
  | _, .notFollowedBy p _ => p.Leaves P
  | _, .wouldMatch p => p.Leaves P
  | _, .atOwnIndent p => p.Leaves P
  | _, .reread p q => p.Leaves P ∧ q.Leaves P
  | _, .inSteps s => s.Leaves P

/-- All leaves of the plans that are run have a property. -/
def Steps.Leaves (P : ∀ {α : Type}, Parser σ α → Prop) : {α : Type} → Steps σ α → Prop
  | _, .finish _ => True
  | _, .settle _ => True
  | _, .run p next => p.Leaves P ∧ ∀ a, (next a).Leaves P
  | _, .indentHere next => next.Leaves P
  | _, .commit next => next.Leaves P
  | _, .rollback next => next.Leaves P

end

section

variable {P Q : ∀ {α : Type}, Parser σ α → Prop}

mutual

/-- A property of the leaves that follows from another one. -/
theorem Plan.leaves_mono (hPQ : ∀ {α : Type} {p : Parser σ α}, P p → Q p) :
    {α : Type} → (t : Plan σ α) → t.Leaves P → t.Leaves Q
  | _, .leaf _, h => hPQ h
  | _, .delayed make, h => fun c => (make c).leaves_mono hPQ (h c)
  | _, .bind p f, h => ⟨p.leaves_mono hPQ h.1, fun a => (f a).leaves_mono hPQ (h.2 a)⟩
  | _, .orElse p q, h => ⟨p.leaves_mono hPQ h.1, q.leaves_mono hPQ h.2⟩
  | _, .many p _, h => p.leaves_mono hPQ h
  | _, .manyTill p stop, h => ⟨p.leaves_mono hPQ h.1, stop.leaves_mono hPQ h.2⟩
  | _, .block item continues _, h => ⟨item.leaves_mono hPQ h.1, continues.leaves_mono hPQ h.2⟩
  | _, .optional p, h => p.leaves_mono hPQ h
  | _, .filter _ _ p, h => p.leaves_mono hPQ h
  | _, .chainRest operand operator _, h =>
    ⟨operand.leaves_mono hPQ h.1, operator.leaves_mono hPQ h.2⟩
  | _, .lookAhead p, h => p.leaves_mono hPQ h
  | _, .notFollowedBy p _, h => p.leaves_mono hPQ h
  | _, .wouldMatch p, h => p.leaves_mono hPQ h
  | _, .atOwnIndent p, h => p.leaves_mono hPQ h
  | _, .reread p q, h => ⟨p.leaves_mono hPQ h.1, q.leaves_mono hPQ h.2⟩
  | _, .inSteps s, h => s.leaves_mono hPQ h

/-- More may be known of the leaves of steps. -/
theorem Steps.leaves_mono (hPQ : ∀ {α : Type} {p : Parser σ α}, P p → Q p) :
    {α : Type} → (s : Steps σ α) → s.Leaves P → s.Leaves Q
  | _, .finish _, _ => trivial
  | _, .settle _, _ => trivial
  | _, .run p next, h => ⟨p.leaves_mono hPQ h.1, fun a => (next a).leaves_mono hPQ (h.2 a)⟩
  | _, .indentHere next, h => next.leaves_mono hPQ h
  | _, .commit next, h => next.leaves_mono hPQ h
  | _, .rollback next, h => next.leaves_mono hPQ h

end

end

namespace Plan

/-- Changes the value. -/
def map (f : α → β) (p : Plan σ α) : Plan σ β := .bind p fun a => .leaf (pure (f a))

/-- Both in turn, for the first value. -/
def keepLeft (p : Plan σ α) (q : Plan σ β) : Plan σ α := .bind p fun a => .map (fun _ => a) q

/-- Both in turn, for the second value. -/
def keepRight (p : Plan σ α) (q : Plan σ β) : Plan σ β := .bind p fun _ => q

/-- Operands joined by operators, from the left. -/
def chainLeft (operand : Plan σ α) (operator : Plan σ (α → α → α)) : Plan σ α :=
  .bind operand (.chainRest operand operator)

/-- The end of a line: a line break or the end of the source. -/
def eol : Plan σ Unit := .orElse (.leaf Parser.newline) (.leaf Parser.eof)

/-- Blank lines, as many as there are. -/
def blankLines : Plan σ Unit :=
  .bind (.many (.keepRight (.leaf Parser.blanks) (.leaf Parser.newline)) 0) fun _ =>
    .map (fun _ => ()) (.optional (.keepRight (.leaf Parser.blanks) (.leaf Parser.eof)))

/-- The end of the line, with the blank lines after it. -/
def lineEnd : Plan σ Unit := .delayed fun c =>
  if c.atLineStart then blankLines
  else .keepRight (.leaf Parser.blanks) (.keepRight eol blankLines)

/-- A line of a block: an item and the end of its line. -/
def line (item : Plan σ α) : Plan σ α := item.keepLeft lineEnd

/-- A further operand of a chain, joined to the value so far. -/
def link (operand : Plan σ α) (operator : Plan σ (α → α → α)) (acc : α) : Plan σ α :=
  .bind operator fun f => operand.map (f acc)

/-- A plan that keeps the first value is a parser that does. -/
theorem parser_keepLeft (p : Plan σ α) (q : Plan σ β) :
    (p.keepLeft q).parser = p.parser <* q.parser := rfl

/-- A chain of plans is the chain of their parsers. -/
theorem parser_chainLeft (operand : Plan σ α) (operator : Plan σ (α → α → α)) :
    (operand.chainLeft operator).parser = operand.parser.chainLeft operator.parser := rfl

/-- The plan for the end of a line is the parser for it. -/
theorem parser_lineEnd : (lineEnd : Plan σ Unit).parser = Parser.lineEnd := by
  funext c j
  change (if c.atLineStart then blankLines else _ : Plan σ Unit).parser c j = _
  rw [Parser.lineEnd]
  by_cases h : c.atLineStart
  · rw [if_pos h, if_pos h]
    rfl
  · rw [if_neg h, if_neg h]
    rfl

/-- The plan of a line is its item with the end of the line. -/
theorem parser_line (item : Plan σ α) :
    item.line.parser = item.parser <* Parser.lineEnd := by
  rw [line, parser_keepLeft, parser_lineEnd]

section

variable {P : ∀ {α : Type}, Parser σ α → Prop}

/-- The leaves of the end of a line are those of blanks, of a line break and of the end of the
    source. -/
theorem leaves_lineEnd (hblanks : P Parser.blanks) (hnewline : P Parser.newline)
    (heof : P Parser.eof) (hpure : ∀ {α : Type} (a : α), P (pure a)) :
    (lineEnd : Plan σ Unit).Leaves P := by
  have hlines : (blankLines : Plan σ Unit).Leaves P :=
    ⟨⟨hblanks, fun _ => hnewline⟩, fun _ => ⟨⟨hblanks, fun _ => heof⟩, fun _ => hpure _⟩⟩
  intro c
  dsimp only
  split
  · exact hlines
  · exact ⟨hblanks, fun _ => ⟨⟨hnewline, heof⟩, fun _ => hlines⟩⟩

/-- The leaves of a line are those of the item and of the end of the line. -/
theorem leaves_line (hblanks : P Parser.blanks) (hnewline : P Parser.newline)
    (heof : P Parser.eof) (hpure : ∀ {α : Type} (a : α), P (pure a)) {item : Plan σ α}
    (h : item.Leaves P) : item.line.Leaves P :=
  ⟨h, fun _ => ⟨leaves_lineEnd hblanks hnewline heof hpure, fun _ => hpure _⟩⟩

/-- The leaves of a link are those of operator and operand. -/
theorem leaves_link (hpure : ∀ {α : Type} (a : α), P (pure a)) {operand : Plan σ α}
    {operator : Plan σ (α → α → α)} (hoperand : operand.Leaves P) (hoperator : operator.Leaves P)
    (acc : α) : (operand.link operator acc).Leaves P :=
  ⟨hoperator, fun _ => ⟨hoperand, fun _ => hpure _⟩⟩

end

end Plan

end Dialogue
