import Dialogue.Proofs.Parser.Plan

/-!
# Parsers that are built

The *elementary* parsers are those of one token, one check, or one step on the journal. A parser
is *built* from parsers of a kind if it is the parser of a plan of which every leaf is elementary
or of this kind (`Built`).

There is one rule for each combinator, so the plan of a rule of a grammar follows its text.
-/

namespace Dialogue.Parser

variable {σ α β : Type}

/-- The parsers that are not made of others. -/
inductive Elementary : {α : Type} → Parser σ α → Prop where
  | pure {α : Type} (a : α) : Elementary (Pure.pure a)
  | expected {α : Type} (what : String) : Elementary (expected what : Parser σ α)
  | fatal {α : Type} (x : Reason) : Elementary (fun c j => .fatal c.index x j : Parser σ α)
  | position : Elementary position
  | journal : Elementary journal
  | record (f : σ → σ) : Elementary (record f)
  | satisfy (set : Char → Bool) (what : String) : Elementary (satisfy set what)
  | takeWhile (set : Char → Bool) : Elementary (takeWhile set)
  | takeWhile1 (set : Char → Bool) (what : String) : Elementary (takeWhile1 set what)
  | newline : Elementary newline
  | eof : Elementary eof
  | tag (text : String) : Elementary (tag text)
  | keyword (word : String) : Elementary (keyword word)
  | number : Elementary number
  | indentation (accepts : Nat → Nat → Bool) (what : Nat → String) :
    Elementary (indentation accepts what)

/-- The parser is put together from elementary parsers and from others of a kind. -/
def Built (L : ∀ {α : Type}, Parser σ α → Prop) (p : Parser σ α) : Prop :=
  ∃ t : Plan σ α, t.Leaves (fun q => Elementary q ∨ L q) ∧ t.parser = p

namespace Built

variable {L : ∀ {α : Type}, Parser σ α → Prop} {p : Parser σ α} {q : Parser σ β}

/-- A leaf is built. -/
theorem of_leaf (h : L p) : Built L p := ⟨.leaf p, .inr h, rfl⟩

/-- An elementary parser is built. -/
theorem elementary (h : Elementary p) : Built L p := ⟨.leaf p, .inl h, rfl⟩

/-- A value is built without running anything. -/
theorem pure (a : α) : Built L (Pure.pure a : Parser σ α) := elementary (.pure a)

/-- A parser that depends on where it starts is built if it is from everywhere. -/
theorem delayed {make : Cursor → Parser σ α} (h : ∀ c, Built L (make c)) :
    Built L fun c j => make c c j := by
  obtain ⟨t, ht⟩ := Classical.axiomOfChoice h
  refine ⟨.delayed t, fun c => (ht c).1, ?_⟩
  funext c j
  exact congrFun (congrFun (ht c).2 c) j

/-- In turn, parsers are built if the second one is for every value of the first. -/
theorem bind {f : α → Parser σ β} (hp : Built L p) (hf : ∀ a, Built L (f a)) :
    Built L (p >>= f) := by
  obtain ⟨t, ht, rfl⟩ := hp
  obtain ⟨u, hu⟩ := Classical.axiomOfChoice hf
  exact ⟨.bind t u, ⟨ht, fun a => (hu a).1⟩, congrArg (t.parser >>= ·) (funext fun a => (hu a).2)⟩

/-- A changed value does not show in what is run. -/
theorem map {f : α → β} (hp : Built L p) : Built L (f <$> p) := hp.bind fun _ => pure _

/-- A value that is thrown away does not show in what is run. -/
theorem discard (hp : Built L p) : Built L (Functor.discard p) := hp.map

/-- Two parsers in turn are built, if the first value is kept. -/
theorem seqLeft (hp : Built L p) (hq : Built L q) : Built L (p <* q) :=
  hp.bind fun _ => hq.bind fun _ => pure _

/-- Two parsers in turn are built, if the second value is kept. -/
theorem seqRight (hp : Built L p) (hq : Built L q) : Built L (p *> q) := hp.bind fun _ => hq

/-- Alternatives are built. -/
theorem orElse {q : Parser σ α} (hp : Built L p) (hq : Built L q) : Built L (p <|> q) := by
  obtain ⟨t, ht, rfl⟩ := hp
  obtain ⟨u, hu, rfl⟩ := hq
  exact ⟨.orElse t u, ⟨ht, hu⟩, rfl⟩

/-- A block is built from its items and what lets it go on. -/
theorem block {item : Parser σ α} {continues : Parser σ β} (hi : Built L item)
    (hc : Built L continues) (owed : Nat) : Built L (Parser.block item continues owed) := by
  obtain ⟨t, ht, rfl⟩ := hi
  obtain ⟨u, hu, rfl⟩ := hc
  exact ⟨.block t u owed, ⟨ht, hu⟩, rfl⟩

/-- What may be missing is built. -/
theorem optional (hp : Built L p) : Built L (Parser.optional p) := by
  obtain ⟨t, ht, rfl⟩ := hp
  exact ⟨.optional t, ht, rfl⟩

/-- What may be refused is built. -/
theorem filter {accepts : α → Bool} {what : String} (hp : Built L p) :
    Built L (Parser.filter accepts what p) := by
  obtain ⟨t, ht, rfl⟩ := hp
  exact ⟨.filter accepts what t, ht, rfl⟩

/-- A chain is built from its operands and operators. -/
theorem chainLeft {operand : Parser σ α} {operator : Parser σ (α → α → α)}
    (hp : Built L operand) (hq : Built L operator) :
    Built L (Parser.chainLeft operand operator) := by
  obtain ⟨t, ht, rfl⟩ := hp
  obtain ⟨u, hu, rfl⟩ := hq
  exact ⟨.chainLeft t u, ⟨ht, fun _ => ⟨ht, hu⟩⟩, Plan.parser_chainLeft t u⟩

/-- What is only looked at is built. -/
theorem lookAhead (hp : Built L p) : Built L (Parser.lookAhead p) := by
  obtain ⟨t, ht, rfl⟩ := hp
  exact ⟨.lookAhead t, ht, rfl⟩

/-- What must not follow is built. -/
theorem notFollowedBy {what : String} (hp : Built L p) :
    Built L (Parser.notFollowedBy p what) := by
  obtain ⟨t, ht, rfl⟩ := hp
  exact ⟨.notFollowedBy t what, ht, rfl⟩

/-- What is only tried is built. -/
theorem wouldMatch (hp : Built L p) : Built L (Parser.wouldMatch p) := by
  obtain ⟨t, ht, rfl⟩ := hp
  exact ⟨.wouldMatch t, ht, rfl⟩

/-- What is read with its own reference is built. -/
theorem atOwnIndent (hp : Built L p) : Built L (Parser.atOwnIndent p) := by
  obtain ⟨t, ht, rfl⟩ := hp
  exact ⟨.atOwnIndent t, ht, rfl⟩

/-- What is read a second time is built from both readings. -/
theorem reread {p : Parser σ (Option α)} {q : Parser σ α} (hp : Built L p) (hq : Built L q) :
    Built L (Parser.reread p q) := by
  obtain ⟨t, ht, rfl⟩ := hp
  obtain ⟨u, hu, rfl⟩ := hq
  exact ⟨.reread t u, ⟨ht, hu⟩, rfl⟩

/-- Of two parsers that are built either may be chosen. -/
theorem ite {b : Prop} [Decidable b] {q : Parser σ α} (hp : Built L p) (hq : Built L q) :
    Built L (if b then p else q) := by
  split
  · exact hp
  · exact hq

/-- The end of a line, with the blank lines behind it, is built from elementary parsers. -/
theorem lineEnd : Built L (lineEnd : Parser σ Unit) :=
  ⟨.lineEnd, Plan.leaves_lineEnd (.inl (.takeWhile _)) (.inl .newline) (.inl .eof)
    fun a => .inl (.pure a), Plan.parser_lineEnd⟩

end Built

end Dialogue.Parser
