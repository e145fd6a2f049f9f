import Dialogue.Compile.Facts
import Dialogue.Proofs.Parser.Plan

/-!
# Journals that only grow

A journal that is changed in place goes back to a *mark*, which tells no more than how much there
was (`Journal`). This gives the journal of then, if it has only been appended to since.

A parser *appends* if the journal is never less behind it, whether it answers or fails
(`Parser.Appends`). Each combinator leaves the journal as one of its parts did, or as it was before
one of them. So a plan appends if its leaves do (`Plan.appends`).
-/

namespace Dialogue

variable {σ ε α β : Type}

/-- A journal with marks to go back to. -/
class Journal (σ : Type) where
  /-- How much there is of a journal. -/
  Mark : Type
  /-- How much there is. -/
  mark : σ → Mark
  /-- Forgets what is behind a mark. -/
  rewind : σ → Mark → σ
  /-- The second journal is the first one, with more behind it or not. -/
  Extends : σ → σ → Prop
  /-- Nothing has to be there. -/
  extends_refl (j : σ) : Extends j j
  /-- There may be more and more. -/
  extends_trans {j j' j'' : σ} : Extends j j' → Extends j' j'' → Extends j j''
  /-- What is behind the mark of a journal is what is more than it. -/
  rewind_mark {j j' : σ} : Extends j j' → rewind j' (mark j) = j

/-- The mark of a list is its length. -/
instance : Journal (List ε) where
  Mark := Nat
  mark := List.length
  rewind j n := j.take n
  Extends := (· <+: ·)
  extends_refl := List.prefix_refl
  extends_trans := List.IsPrefix.trans
  rewind_mark h := (List.prefix_iff_eq_take.1 h).symm

/-- The mark of facts tells how many there are of each kind. -/
instance : Journal Facts where
  Mark := Mark
  mark := Facts.mark
  rewind := Facts.rewind
  Extends f g := f.declared <+: g.declared ∧ f.jumps <+: g.jumps ∧ f.uses <+: g.uses
  extends_refl f := ⟨f.declared.prefix_refl, f.jumps.prefix_refl, f.uses.prefix_refl⟩
  extends_trans h h' := ⟨h.1.trans h'.1, h.2.1.trans h'.2.1, h.2.2.trans h'.2.2⟩
  rewind_mark {f g} h := by
    rw [Facts.rewind, Facts.mark]
    exact congr (congr (congrArg Facts.mk (Journal.rewind_mark h.1)) (Journal.rewind_mark h.2.1))
      (Journal.rewind_mark h.2.2)

/-- What is found is written behind what was found before. -/
theorem Facts.extends_found (f : Facts) (index : Nat) (name other : String) (k : Category) :
    Journal.Extends f (f.declare index name) ∧ Journal.Extends f (f.jumpTo index name) ∧
      Journal.Extends f (f.useVariable index name k) ∧
      Journal.Extends f (f.linkVariables index name other) :=
  have hdeclared := f.declared.prefix_refl
  have hjumps := f.jumps.prefix_refl
  have huses := f.uses.prefix_refl
  ⟨⟨List.prefix_append .., hjumps, huses⟩, ⟨hdeclared, List.prefix_append .., huses⟩,
    ⟨hdeclared, hjumps, List.prefix_append ..⟩, ⟨hdeclared, hjumps, List.prefix_append ..⟩⟩

/-- Mapping the answer leaves the journal alone. -/
theorem Reply.journal_map (f : α → β) (r : Reply σ α) : (r.map f).journal = r.journal := by
  cases r <;> rfl

/-- To tell whether a parser applies leaves the journal as it is. -/
theorem Parser.journal_wouldMatch (p : Parser σ α) (c : Cursor) (j : σ) :
    (p.wouldMatch c j).journal = j := by
  rw [Parser.wouldMatch]
  cases p c j <;> rfl

open Journal (Extends extends_refl extends_trans)

variable [Journal σ]

namespace Parser

/-- Behind the parser there is no less in the journal. -/
def Appends (p : Parser σ α) : Prop := ∀ c j, Extends j (p c j).journal

namespace Appends

variable {p : Parser σ α} {q : Parser σ β}

/-- The journal is left as it is. -/
theorem of_same (h : ∀ c j, (p c j).journal = j) : Appends p := fun c j => by
  rw [h c j]
  exact extends_refl j

/-- What reads nothing appends nothing. -/
theorem pure (a : α) : Appends (Pure.pure a : Parser σ α) := .of_same fun _ _ => rfl

/-- A single character appends nothing. -/
theorem satisfy (set : Char → Bool) (what : String) :
    Appends (Parser.satisfy set what : Parser σ Char) := by
  refine .of_same fun c j => ?_
  rw [Parser.satisfy]
  split
  · split <;> rfl
  · rfl

/-- Two parsers that append do so one after the other. -/
theorem bind {f : α → Parser σ β} (hp : Appends p) (hf : ∀ a, Appends (f a)) :
    Appends (p >>= f) := by
  intro c j
  have h := hp c j
  rw [bind_apply]
  cases hr : p c j with
  | ok a c' j' =>
    rw [hr] at h
    exact extends_trans h (hf a c' j')
  | miss i e j' => rwa [hr] at h
  | fatal i x j' => rwa [hr] at h

/-- Two parsers that append do so if the first one answers. -/
theorem seqLeft (hp : Appends p) (hq : Appends q) : Appends (p <* q) :=
  hp.bind fun _ => hq.bind fun _ => .pure _

/-- Two parsers that append do so if the second one answers. -/
theorem seqRight (hp : Appends p) (hq : Appends q) : Appends (p *> q) := hp.bind fun _ => hq

/-- An alternative goes back to the journal before the first parser, and appends. -/
theorem orElse {q : Parser σ α} (hp : Appends p) (hq : Appends q) : Appends (p <|> q) := by
  intro c j
  have hp := hp c j
  have hq := hq c j
  change Extends j (Parser.orElse p q c j).journal
  rw [Parser.orElse]
  cases hr : p c j with
  | ok a c' j' => rwa [hr] at hp
  | fatal i x j' => rwa [hr] at hp
  | miss i e j' =>
    cases hr' : q c j with
    | ok a c' j' => rwa [hr'] at hq
    | fatal i x j' => rwa [hr'] at hq
    | miss i' e' j' => exact extends_refl j

/-- What may be missing appends. -/
theorem optional (hp : Appends p) : Appends p.optional := by
  intro c j
  have h := hp c j
  rw [Parser.optional]
  cases hr : p c j with
  | ok a c' j' => rwa [hr] at h
  | miss i e j' => exact extends_refl j
  | fatal i x j' => rwa [hr] at h

/-- What is checked appends. -/
theorem filter {accepts : α → Bool} {what : String} (hp : Appends p) :
    Appends (p.filter accepts what) := by
  intro c j
  have h := hp c j
  rw [Parser.filter]
  cases hr : p c j with
  | ok a c' j' =>
    rw [hr] at h
    dsimp only
    split
    · exact h
    · exact extends_refl j
  | miss i e j' => rwa [hr] at h
  | fatal i x j' => rwa [hr] at h

/-- What only looks ahead leaves the journal as it is. -/
theorem lookAhead : Appends p.lookAhead := by
  refine .of_same fun c j => ?_
  rw [Parser.lookAhead]
  cases p c j <;> rfl

/-- A look for what must not be there leaves the journal as it was. -/
theorem notFollowedBy {what : String} : Appends (p.notFollowedBy what) := by
  refine .of_same fun c j => ?_
  rw [Parser.notFollowedBy]
  cases p c j <;> rfl

/-- A question for what is ahead leaves the journal as it was. -/
theorem wouldMatch : Appends p.wouldMatch := .of_same p.journal_wouldMatch

/-- What appends does so at its own column too. -/
theorem atOwnIndent (hp : Appends p) : Appends p.atOwnIndent := by
  intro c j
  have h := hp (c.withReference c.here) j
  rw [Parser.atOwnIndent]
  cases hr : p (c.withReference c.here) j with
  | ok a c' j' => rwa [hr] at h
  | miss i e j' => rwa [hr] at h
  | fatal i x j' => rwa [hr] at h

/-- What is read twice appends, from the journal before the first reading. -/
theorem reread {p : Parser σ (Option α)} {q : Parser σ α} (hp : Appends p) (hq : Appends q) :
    Appends (p.reread q) := by
  intro c j
  have h := hp c j
  rw [Parser.reread]
  cases hr : p c j with
  | ok o c' j' =>
    rw [hr] at h
    cases o with
    | none => exact hq c j
    | some a => exact h
  | miss i e j' => rwa [hr] at h
  | fatal i x j' => rwa [hr] at h

/-! ## Repetitions -/

/-- A repetition appends. -/
theorem many (hp : Appends p) (owed : Nat) : Appends (p.many owed) := by
  intro c
  induction hn : c.remaining using Nat.strongRecOn generalizing owed c with
  | ind n ih =>
    intro j
    subst hn
    have h := hp c j
    rw [Parser.many]
    cases hr : p c j with
    | ok a c' j' =>
      rw [hr] at h
      dsimp only
      split
      · rename_i hless
        rw [Reply.journal_map]
        exact extends_trans h (ih _ hless (owed - 1) c' rfl j')
      · exact h
    | miss i e j' =>
      dsimp only
      split <;> exact extends_refl j
    | fatal i x j' => rwa [hr] at h

/-- A repetition with a stop appends. -/
theorem manyTill {stop : Parser σ β} (hp : Appends p) (hs : Appends stop) :
    Appends (p.manyTill stop) := by
  intro c
  induction hn : c.remaining using Nat.strongRecOn generalizing c with
  | ind n ih =>
    intro j
    subst hn
    have hs := hs c j
    have h := hp c j
    rw [Parser.manyTill]
    cases hr : stop c j with
    | ok b c' j' => exact extends_refl j
    | fatal i x j' => rwa [hr] at hs
    | miss i e j' =>
      cases hr' : p c j with
      | ok a c' j₂ =>
        rw [hr'] at h
        dsimp only
        split
        · rename_i hless
          rw [Reply.journal_map]
          exact extends_trans h (ih _ hless c' rfl j₂)
        · exact extends_refl j
      | miss i' e' j₂ =>
        dsimp only
        split <;> exact extends_refl j
      | fatal i' x j₂ => rwa [hr'] at h

/-- A chain appends. -/
theorem chainRest {operand : Parser σ α} {operator : Parser σ (α → α → α)}
    (hoperand : Appends operand) (hoperator : Appends operator) (acc : α) :
    Appends (Parser.chainRest operand operator acc) := by
  intro c
  induction hn : c.remaining using Nat.strongRecOn generalizing acc c with
  | ind n ih =>
    intro j
    subst hn
    have hlink : Appends (do let f ← operator; let a ← operand; Pure.pure (f acc a)) :=
      hoperator.bind fun _ => hoperand.bind fun _ => .pure _
    have h := hlink c j
    rw [Parser.chainRest]
    cases hr : (do let f ← operator; let a ← operand; Pure.pure (f acc a) : Parser _ _) c j with
    | ok acc' c' j' =>
      rw [hr] at h
      dsimp only
      split
      · rename_i hless
        exact extends_trans h (ih _ hless acc' c' rfl j')
      · exact h
    | miss i e j' => exact extends_refl j
    | fatal i x j' => rwa [hr] at h

/-- Blanks append nothing. -/
theorem blanks : Appends (Parser.blanks : Parser σ _) := .of_same fun _ _ => rfl

/-- A line break appends nothing. -/
theorem newline : Appends (Parser.newline : Parser σ Unit) := by
  refine .of_same fun c j => ?_
  rw [Parser.newline]
  split
  · rfl
  · split <;> rfl
  · rfl

/-- The end of the source appends nothing. -/
theorem eof : Appends (Parser.eof : Parser σ Unit) := by
  refine .of_same fun c j => ?_
  rw [Parser.eof]
  split <;> rfl

/-- Blank lines append nothing. -/
theorem blankLines : Appends (Parser.blankLines : Parser σ Unit) :=
  ((blanks.seqRight newline).many 0).bind fun _ =>
    (blanks.seqRight eof).optional.bind fun _ => .pure _

/-- The end of a line appends nothing. -/
theorem lineEnd : Appends (Parser.lineEnd : Parser σ Unit) := by
  intro c j
  rw [Parser.lineEnd]
  split
  · exact blankLines c j
  · exact (blanks.seqRight ((newline.orElse eof).seqRight blankLines)) c j

/-- A block appends what its items and continuations do. -/
theorem block {item : Parser σ α} {continues : Parser σ β} (hitem : Appends item)
    (hcontinues : Appends continues) (owed : Nat) :
    Appends (Parser.block item continues owed) := by
  intro c
  induction hn : c.remaining using Nat.strongRecOn generalizing owed c with
  | ind n ih =>
    intro j
    subst hn
    have h := hitem.seqLeft lineEnd c j
    rw [Parser.block]
    cases hr : (item <* Parser.lineEnd) c j with
    | miss i e j' => rwa [hr] at h
    | fatal i x j' => rwa [hr] at h
    | ok a c' j' =>
      rw [hr] at h
      dsimp only
      split
      · exact h
      have hnext := hcontinues (c'.skipWhile Text.isBlank) j'
      -- What a missing condition has noted is dropped.
      cases hr' : continues (c'.skipWhile Text.isBlank) j' with
      | miss i e j₂ =>
        dsimp only
        split <;> exact h
      | fatal i x j₂ =>
        rw [hr'] at hnext
        exact extends_trans h hnext
      | ok b c₂ j₂ =>
        rw [hr'] at hnext
        dsimp only
        split
        · rename_i hless
          rw [Reply.journal_map]
          exact extends_trans (extends_trans h hnext) (ih _ hless (owed - 1) _ rfl j₂)
        · exact extends_trans h hnext

end Appends

end Parser

/-- An id that is taken is not written down again. -/
theorem Rule.appends_declare (index : Nat) (id : String) : (declare index id).Appends := by
  intro c f
  rw [declare]
  split
  · exact extends_refl f
  · exact (f.extends_found index id id .text).1

/-! ## Plans append -/

/-- A checkpoint that has kept a journal, and would keep it if it went back. -/
def Checkpoint.Keeps (j : σ) (t : Checkpoint σ) : Prop :=
  Extends j t.journal ∧ Extends j t.savedJournal

open Dialogue.Parser (Appends)

mutual

/-- A plan appends if its leaves do. -/
theorem Plan.appends : {α : Type} → (t : Plan σ α) → t.Leaves Appends → t.parser.Appends
  | _, .leaf _, h => h
  | _, .delayed make, h => fun c j => (make c).appends (h c) c j
  | _, .bind p f, h => (p.appends h.1).bind fun a => (f a).appends (h.2 a)
  | _, .orElse p q, h => (p.appends h.1).orElse (q.appends h.2)
  | _, .many p owed, h => (p.appends h).many owed
  | _, .manyTill p stop, h => (p.appends h.1).manyTill (stop.appends h.2)
  | _, .block item continues owed, h => (item.appends h.1).block (continues.appends h.2) owed
  | _, .optional p, h => (p.appends h).optional
  | _, .filter _ _ p, h => (p.appends h).filter
  | _, .chainRest operand operator acc, h =>
    (operand.appends h.1).chainRest (operator.appends h.2) acc
  | _, .lookAhead _, _ => .lookAhead
  | _, .notFollowedBy _ _, _ => .notFollowedBy
  | _, .wouldMatch _, _ => .wouldMatch
  | _, .atOwnIndent p, h => (p.appends h).atOwnIndent
  | _, .reread p q, h => (p.appends h.1).reread (q.appends h.2)
  | _, .inSteps s, h => fun c j => s.appends h (.start c j) j ⟨extends_refl j, extends_refl j⟩

/-- Steps of a transaction append to what the checkpoint keeps. -/
theorem Steps.appends : {α : Type} → (s : Steps σ α) → s.Leaves Appends →
    ∀ (t : Checkpoint σ) (j : σ), t.Keeps j → Extends j (s.perform t).journal
  | _, .finish _, _, _, _, ht => ht.1
  | _, .settle _, _, _, _, ht => ht.2
  | _, .run p next, h, t, j, ht => by
    have hp := p.appends h.1 t.cursor t.journal
    rw [Steps.perform, Checkpoint.run]
    cases hr : p.parser t.cursor t.journal with
    | ok a c' j' =>
      rw [hr] at hp
      exact (next a).appends (h.2 a) _ j ⟨extends_trans ht.1 hp, ht.2⟩
    | miss i e j' => exact ht.2
    | fatal i x j' => exact ht.2
  | _, .indentHere next, h, t, j, ht => next.appends h t.indentHere j ht
  | _, .commit next, h, t, j, ht => next.appends h t.commit j ⟨ht.1, ht.1⟩
  | _, .rollback next, h, t, j, ht => next.appends h t.rollback j ⟨ht.2, ht.2⟩

end

end Dialogue
