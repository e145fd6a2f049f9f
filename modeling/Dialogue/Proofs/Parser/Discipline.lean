import Dialogue.Proofs.Parser.Built
import Dialogue.Proofs.Parser.Reach
import Dialogue.Proofs.Parser.Pace

/-!
# Discipline

Where a *disciplined* parser answers, the cursor is further ahead in the same source, with the
tab stops and the reference that it had; where it fails, it tells the offset of a place ahead
(`Parser.Disciplined`). A plan is *careful* if all that is run for it starts at such a place, so
that a source is only ever cut between two characters (`Plan.Careful`).

* `Plan.walks`: what is built from elementary parsers walks.
* `Plan.disciplined`, `Plan.careful`: it is disciplined, and careful.
-/

namespace Dialogue

open Dialogue.Parser
open Cursor (Below)

variable {σ α β : Type}

/-- The parser stays in its source, moves ahead and gives the reference back. -/
structure Parser.Disciplined (p : Parser σ α) : Prop where
  /-- What holds of the cursor that is answered. -/
  answer {c c' : Cursor} {j j' : σ} {a : α} : p c j = .ok a c' j' →
    c'.source = c.source ∧ c'.tabSize = c.tabSize ∧ c'.reference = c.reference ∧
      c.index ≤ c'.index ∧ c'.index ≤ byteSize c.source ∧ Boundary c.source c'.index
  /-- What holds of the offset of a failure. -/
  failure {c : Cursor} {j : σ} {f : Failure} : (p c j).outcome = .error f →
    c.index ≤ f.index ∧ f.index ≤ byteSize c.source ∧ Boundary c.source f.index

/-- Whatever is run for the plan, from a cursor whose reference is a place of its source, starts
    ahead of it in the same source, and cuts the source between two characters: where it
    starts, and at the reference, whose line has the column that is compared with. -/
def Plan.Careful (t : Plan σ α) : Prop :=
  ∀ ⦃c j l r⦄, c.Placed → t.Runs c j l r → ∀ ⦃c' j'⦄, Event.start c' j' ∈ l →
    c'.source = c.source ∧ c'.tabSize = c.tabSize ∧ c.index ≤ c'.index ∧
      c'.Cuts c'.index ∧ c'.Cuts c'.reference.index ∧
      c'.reference.column = c'.columnAt c'.reference.index

/-- A parser that walks from everywhere is disciplined. -/
theorem Parser.Disciplined.of_walks {p : Parser σ α} {F : Reason → Prop}
    (h : ∀ o n, Walks F o (Below n) p fun _ => Below n) : p.Disciplined := by
  have hwalk (c : Cursor) (j : σ) := h c (c.remaining + 1) j (.refl c) (Nat.lt_succ_self _)
  refine ⟨fun {c c' j j' a} hr => ?_, fun {c j f} hr => ?_⟩
  · obtain ⟨hahead, href, -⟩ := (hwalk c j).of_ok hr
    have hb : Boundary c.source c'.index := hahead.sees_index.boundary
    exact ⟨hahead.source_eq, hahead.tabSize, href, hahead.index_le, hb.le, hb⟩
  · have hsees : c.Sees f.index := by
      cases f with
      | miss i e => exact ((hwalk c j).of_miss hr).1
      | fatal i x => exact ((hwalk c j).of_fatal hr).1
    exact ⟨hsees.index_le, hsees.boundary.le, hsees.boundary⟩

/-! ## What is built from elementary parsers walks -/

/-- An elementary parser walks. -/
theorem Parser.Elementary.walks {p : Parser σ α} (h : Elementary p) (o : Cursor) (n : Nat) :
    Walks (fun _ => True) o (Below n) p fun _ => Below n := by
  cases h with
  | pure a => exact .pure fun _ h => h
  | expected what => exact .expected
  | fatal x => exact fun _ _ ho _ => ⟨ho.sees_index, trivial⟩
  | position => exact keeps_position.walks
  | journal => exact .journal
  | record f => exact .record
  | satisfy set what => exact (takes_satisfy set what).keeps.walks
  | takeWhile set => exact (keeps_takeWhile set).walks
  | takeWhile1 set what => exact (takes_takeWhile1 set what).keeps.walks
  | newline => exact takes_newline.keeps.walks
  | eof => exact keeps_eof.walks
  | tag text => exact (keeps_tag text).walks
  | keyword word => exact (keeps_keyword word).walks
  | number => exact takes_number.keeps.walks
  | indentation accepts what => exact (keeps_indentation accepts what).walks

/-- A checkpoint of steps that were begun at a place, and have moved ahead from there. -/
structure Checkpoint.Ahead (c : Cursor) (t : Checkpoint σ) : Prop where
  /-- The current place is ahead. -/
  cursor : c.Ahead t.cursor
  /-- So is the one that was saved. -/
  savedCursor : c.Ahead t.savedCursor
  /-- The reference is the one to be given back. -/
  reference : t.reference = c.reference

mutual

/-- What is built from elementary parsers walks. -/
theorem Plan.walks (o : Cursor) (n : Nat) : {α : Type} → (t : Plan σ α) → t.Leaves Elementary →
    Walks (fun _ => True) o (Below n) t.parser fun _ => Below n
  | _, .leaf _, h => Elementary.walks h o n
  | _, .delayed make, h => fun c j ho hc => (make c).walks o n (h c) j ho hc
  | _, .bind p f, h => (p.walks o n h.1).bind fun a => (f a).walks o n (h.2 a)
  | _, .orElse p q, h => (p.walks o n h.1).orElse (q.walks o n h.2)
  | _, .many p owed, h => .many owed (p.walks o n h)
  | _, .manyTill p stop, h => .manyTill (p.walks o n h.1) (stop.walks o n h.2)
  | _, .block item continues owed, h =>
    have hline : Walks (fun _ => True) o (Below n) (item.parser <* lineEnd) fun _ c =>
        True ∧ Below n c :=
      (item.walks o n h.1).seqLeft fun _ => keeps_lineEnd.walks.mono fun _ _ hc => ⟨trivial, hc⟩
    (Walks.block owed hline (continues.walks o n h.2) (.inl trivial)).mono fun _ _ hc => hc.2
  | _, .optional p, h => .optional (p.walks o n h) fun _ hc => hc
  | _, .filter _ _ p, h => (p.walks o n h).filter
  | _, .chainRest operand operator acc, h =>
    .chainRest acc (operator.walks o n h.2) (operand.walks o n h.1) (.inl trivial)
  | _, .lookAhead p, h => .lookAhead (p.walks o n h)
  | _, .notFollowedBy p _, h => .notFollowedBy (p.walks o n h)
  | _, .wouldMatch p, h => .wouldMatch (p.walks o n h)
  | _, .atOwnIndent p, h => .atOwnIndent (p.walks o n h) fun _ _ _ hc => hc
  | _, .reread p q, h => .reread (p.walks o n h.1) (fun _ _ hc => hc) (q.walks o n h.2)
  | _, .inSteps s, h => fun c j ho hc => s.walks o n h c ho hc (.start c j) ⟨.refl c, .refl c, rfl⟩

/-- Steps of a transaction walk if their leaves are elementary. -/
theorem Steps.walks (o : Cursor) (n : Nat) : {α : Type} → (s : Steps σ α) →
    s.Leaves Elementary → ∀ c, o.Ahead c → Below n c → ∀ t : Checkpoint σ, t.Ahead c →
      (s.perform t).Walked (fun _ => True) o c fun _ => Below n
  | _, .finish _, _, _, _, hc, _, ht =>
    ⟨ht.cursor.withReference _, ht.reference, Nat.lt_of_le_of_lt ht.cursor.remaining_le hc⟩
  | _, .settle _, _, _, _, hc, _, ht =>
    ⟨ht.savedCursor.withReference _, ht.reference,
      Nat.lt_of_le_of_lt ht.savedCursor.remaining_le hc⟩
  | _, .run p next, h, c, ho, hc, t, ht => by
    have hp := p.walks o n h.1 t.journal (ho.trans ht.cursor)
      (Nat.lt_of_le_of_lt ht.cursor.remaining_le hc)
    rw [Steps.perform, Checkpoint.run]
    cases hr : p.parser t.cursor t.journal with
    | ok a c' j' =>
      rw [hr] at hp
      exact (next a).walks o n (h.2 a) c ho hc _
        ⟨ht.cursor.trans hp.1, ht.savedCursor, ht.reference⟩
    | miss i e j' => rwa [hr] at hp
    | fatal i x j' => rwa [hr] at hp
  | _, .indentHere next, h, c, ho, hc, t, ht =>
    next.walks o n h c ho hc t.indentHere
      ⟨ht.cursor.withReference _, ht.savedCursor, ht.reference⟩
  | _, .commit next, h, c, ho, hc, t, ht =>
    next.walks o n h c ho hc t.commit ⟨ht.cursor, ht.cursor, ht.reference⟩
  | _, .rollback next, h, c, ho, hc, t, ht =>
    next.walks o n h c ho hc t.rollback ⟨ht.savedCursor, ht.savedCursor, ht.reference⟩

end

/-- What is built from elementary parsers is disciplined. -/
theorem Plan.disciplined {t : Plan σ α} (ht : t.Leaves Elementary) : t.parser.Disciplined :=
  .of_walks fun o n => t.walks o n ht

/-! ## What is run stays in the source -/

/-- Parts are started ahead, and at places if the parse was. What is answered has the reference
    from before. -/
theorem reach_ahead : Reach (σ := σ) (fun c _ c' _ => c.Ahead c' ∧ (c.Placed → c'.Placed))
    fun c _ c' _ => c.Ahead c' ∧ c'.reference = c.reference where
  refl c _ := ⟨.refl c, rfl⟩
  trans h h' := ⟨h.1.trans h'.1, h'.2.trans h.2⟩
  skip n c _ := ⟨Cursor.ahead_skip n c, rfl⟩
  stay {c _ _ _} _ := ⟨.refl c, rfl⟩
  withReference _ h := ⟨⟨h.1.tabSize, h.1.walked⟩, rfl⟩
  start h := ⟨h.1, fun hp => hp.ahead h.1 h.2⟩
  nested h h' := ⟨h.1.trans h'.1, fun hp => h'.2 (h.2 hp)⟩
  here c _ := ⟨Cursor.ahead_withReference _ c, fun _ => c.placed_here⟩

/-- Where the parser answers, it is ahead, with the same reference. -/
abbrev Parser.Moves (p : Parser σ α) : Prop :=
  p.Reaches fun c _ c' _ => c.Ahead c' ∧ c'.reference = c.reference

/-- An elementary parser moves ahead. -/
theorem Parser.Elementary.moves {p : Parser σ α} (h : Elementary p) : p.Moves := by
  intro c j
  have hw := h.walks c (c.remaining + 1) j (.refl c) (Nat.lt_succ_self _)
  cases hr : p c j with
  | ok a c' j' =>
    rw [hr] at hw
    exact ⟨hw.1, hw.2.1⟩
  | miss i e j' => trivial
  | fatal i x j' => trivial

/-- What is built from parsers that only move is careful. -/
theorem Plan.Careful.of_moves {t : Plan σ α} (ht : t.Leaves Parser.Moves) : t.Careful := by
  intro c j l r hc h c' j' hstart
  obtain ⟨hahead, hplaced⟩ := (h.reached reach_ahead ht).events _ hstart
  have hplaced := hplaced hc
  refine ⟨hahead.source_eq, hahead.tabSize, hahead.index_le, ?_, ?_, ?_⟩
  · exact Cursor.cuts_of_boundary c'.boundary_index
  · exact Cursor.cuts_of_boundary hplaced.boundary
  · exact (congrArg Reference.column hplaced.reference_eq).symm

/-- What is built from elementary parsers is careful. -/
theorem Plan.careful {t : Plan σ α} (ht : t.Leaves Elementary) : t.Careful :=
  .of_moves (t.leaves_mono Elementary.moves ht)

end Dialogue
