import Dialogue.Proofs.Parser.Growth
import Mathlib.Data.List.DropRight

/-!
# Transactions

A *transaction* is a parse in steps that changes its journal in place (`Transaction`). It saves the
place where it is and a mark of its journal, and keeps the reference that it began with. To go back,
or to give it up, is to rewind to the mark, and it is given up behind each of its ends.

A checkpoint has saved the journal itself. If all that is done appends, the mark is as good
(`Checkpoint.marked`): the two take the same steps (`Checkpoint.step_marked`), so they are in step
at all times (`Checkpoint.after_marked`). What a checkpoint goes back to is where it was when it was
last committed (`Checkpoint.rollback_after`). So this is what the transaction goes back to, and
what is left of it (`Transaction.restores`).
-/

namespace Dialogue

open Journal (Extends extends_refl extends_trans rewind_mark)

variable {σ α : Type}

/-- A parse in steps that changes its journal in place. -/
structure Transaction (σ : Type) [Journal σ] where
  /-- Where the parse is. -/
  cursor : Cursor
  /-- The journal so far. -/
  journal : σ
  /-- Where the parse was when it was last saved. -/
  savedCursor : Cursor
  /-- How much there was of the journal when the parse was last saved. -/
  mark : Journal.Mark σ
  /-- The reference that the parse began with. -/
  reference : Reference

namespace Transaction

section

variable [Journal σ]

/-- Begins a parse, saving its start. -/
def start (c : Cursor) (j : σ) : Transaction σ := ⟨c, j, c, Journal.mark j, c.reference⟩

/-- Runs a parser and moves behind what it read. -/
def run (p : Parser σ α) (t : Transaction σ) : Except Failure α × Transaction σ :=
  match p t.cursor t.journal with
  | .ok a c j => (.ok a, { t with cursor := c, journal := j })
  | .miss i e j => (.error (.miss i e), { t with journal := j })
  | .fatal i x j => (.error (.fatal i x), { t with journal := j })

/-- Runs a parser. Where it misses, there is no value, and what it wrote is forgotten. -/
def attempt (p : Parser σ α) (t : Transaction σ) : Except Failure (Option α) × Transaction σ :=
  match p t.cursor t.journal with
  | .ok a c j => (.ok (some a), { t with cursor := c, journal := j })
  | .miss _ _ j => (.ok none, { t with journal := Journal.rewind j (Journal.mark t.journal) })
  | .fatal i x j => (.error (.fatal i x), { t with journal := j })

/-- Tells whether a parser applies. What it wrote is forgotten. -/
def peek (p : Parser σ α) (t : Transaction σ) : Except Failure Bool × Transaction σ :=
  let reply := p t.cursor t.journal
  let back := { t with journal := Journal.rewind reply.journal (Journal.mark t.journal) }
  match reply with
  | .ok _ _ _ => (.ok true, back)
  | .miss _ _ _ => (.ok false, back)
  | .fatal i x _ => (.error (.fatal i x), back)

/-- Takes the indentation of the current place as the reference. -/
def indentHere (t : Transaction σ) : Transaction σ :=
  { t with cursor := t.cursor.withReference t.cursor.here }

/-- Writes into the journal. -/
def record (f : σ → σ) (t : Transaction σ) : Transaction σ := { t with journal := f t.journal }

/-- Saves the current place, and how much there is of the journal. -/
def commit (t : Transaction σ) : Transaction σ :=
  { t with savedCursor := t.cursor, mark := Journal.mark t.journal }

/-- Goes back to what was saved. -/
def rollback (t : Transaction σ) : Transaction σ :=
  { t with cursor := t.savedCursor, journal := Journal.rewind t.journal t.mark }

/-- Gives the parse up; what is left is the journal up to the mark. -/
def drop (t : Transaction σ) : σ := Journal.rewind t.journal t.mark

/-- Ends the parse where it is, which is saved before the parse is given up. The reference it began
    with is given back. -/
def finish (t : Transaction σ) : Cursor × σ :=
  (t.commit.cursor.withReference t.commit.reference, t.commit.drop)

/-- Ends the parse where it was saved. -/
def settle (t : Transaction σ) : Cursor × σ := t.rollback.finish

end

/-- What is done in a transaction. -/
inductive Step (σ : Type) : Type 1 where
  /-- Runs a plan. -/
  | run {α : Type} (p : Plan σ α)
  /-- Runs a plan that may miss. -/
  | attempt {α : Type} (p : Plan σ α)
  /-- Tells whether a plan applies. -/
  | peek {α : Type} (p : Plan σ α)
  /-- Takes the indentation of the current place as the reference. -/
  | indentHere
  /-- Writes into the journal. -/
  | record (f : σ → σ)
  /-- Saves the current place and journal. -/
  | commit
  /-- Goes back to what was saved. -/
  | rollback

namespace Step

/-- Is the current place saved? -/
def isCommit : Step σ → Bool
  | commit => true
  | _ => false

/-- There is one step that commits. -/
theorem eq_commit {x : Step σ} (h : x.isCommit) : x = commit := by
  cases x with
  | commit => rfl
  | _ => cases h

/-- What is written goes to the end of the journal. -/
def Appends [Journal σ] : Step σ → Prop
  | run p => p.Leaves Parser.Appends
  | attempt p => p.Leaves Parser.Appends
  | peek p => p.Leaves Parser.Appends
  | record f => ∀ j, Extends j (f j)
  | _ => True

end Step

variable [Journal σ]

/-- The transaction after a step, whether it fails or not. -/
def step (t : Transaction σ) : Step σ → Transaction σ
  | .run p => (t.run p.parser).2
  | .attempt p => (t.attempt p.parser).2
  | .peek p => (t.peek p.parser).2
  | .indentHere => t.indentHere
  | .record f => t.record f
  | .commit => t.commit
  | .rollback => t.rollback

/-- The transaction that was begun at a place, after several steps. -/
def after (c : Cursor) (j : σ) (xs : List (Step σ)) : Transaction σ := xs.foldl step (start c j)

/-- The transaction as it was when it was last committed, or when it was begun. -/
def committed (c : Cursor) (j : σ) (xs : List (Step σ)) : Transaction σ :=
  after c j (xs.rdropWhile (!Step.isCommit ·))

end Transaction

open Transaction (Step)

namespace Checkpoint

variable {k : Checkpoint σ} {p : Parser σ α} {x : Step σ} {xs : List (Step σ)}

/-- The checkpoint after a step, whether it fails or not. -/
def step (k : Checkpoint σ) : Step σ → Checkpoint σ
  | .run p => (k.run p.parser).2
  | .attempt p => (k.run p.parser.optional).2
  | .peek p => (k.run p.parser.wouldMatch).2
  | .indentHere => k.indentHere
  | .record f => k.record f
  | .commit => k.commit
  | .rollback => k.rollback

/-- The checkpoint that was begun at a place, after several steps. -/
def after (c : Cursor) (j : σ) (xs : List (Step σ)) : Checkpoint σ := xs.foldl step (start c j)

/-- The last step is taken behind all others. -/
theorem after_concat (c : Cursor) (j : σ) (xs : List (Step σ)) (x : Step σ) :
    after c j (xs ++ [x]) = (after c j xs).step x := by
  rw [after, List.foldl_append]
  rfl

/-! ## What was saved -/

/-- A run does not change what is gone back to. -/
theorem rollback_run (p : Parser σ α) (k : Checkpoint σ) : (k.run p).2.rollback = k.rollback := by
  rw [run]
  cases p k.cursor k.journal <;> rfl

/-- What was saved stays the same until it is saved again. -/
theorem rollback_step (hx : x.isCommit = false) (k : Checkpoint σ) :
    (k.step x).rollback = k.rollback := by
  cases x with
  | run p => exact rollback_run p.parser k
  | attempt p => exact rollback_run p.parser.optional k
  | peek p => exact rollback_run p.parser.wouldMatch k
  | indentHere => rfl
  | record f => rfl
  | commit => cases hx
  | rollback => rfl

/-- To go back is to go back to the last commit, or to the start. -/
theorem rollback_after (c : Cursor) (j : σ) (xs : List (Step σ)) :
    (after c j xs).rollback = after c j (xs.rdropWhile (!Step.isCommit ·)) := by
  induction xs using List.reverseRecOn with
  | nil => rfl
  | append_singleton xs x ih =>
    rw [List.rdropWhile_concat]
    -- A commit is the last one; any other last step leaves what was saved before.
    cases hx : x.isCommit with
    | true =>
      obtain rfl := Step.eq_commit hx
      rw [Bool.not_true, if_neg Bool.false_ne_true, after_concat]
      rfl
    | false => rw [Bool.not_false, if_pos rfl, after_concat, rollback_step hx, ih]

/-- The reference is saved for good. -/
theorem reference_step (x : Step σ) (k : Checkpoint σ) : (k.step x).reference = k.reference := by
  cases hx : x.isCommit with
  | true =>
    obtain rfl := Step.eq_commit hx
    rfl
  | false =>
    have hback : (k.step x).rollback.reference = k.rollback.reference := by rw [rollback_step hx]
    exact hback

/-- The reference that is given back is that of the start. -/
theorem reference_after (c : Cursor) (j : σ) (xs : List (Step σ)) :
    (after c j xs).reference = c.reference := by
  induction xs using List.reverseRecOn with
  | nil => rfl
  | append_singleton xs x ih => rw [after_concat, reference_step, ih]

/-! ## A mark is as good -/

variable [Journal σ]

/-- Of the journal that it has saved the checkpoint keeps a mark only. -/
def marked (k : Checkpoint σ) : Transaction σ :=
  ⟨k.cursor, k.journal, k.savedCursor, Journal.mark k.savedJournal, k.reference⟩

/-- The journal has only been appended to since it was saved. -/
def Grown (k : Checkpoint σ) : Prop := Extends k.savedJournal k.journal

/-- Checkpoints with a mark run the same. -/
theorem run_marked (p : Parser σ α) (k : Checkpoint σ) :
    k.marked.run p = ((k.run p).1, (k.run p).2.marked) := by
  simp only [Transaction.run, run, marked]
  cases p k.cursor k.journal <;> rfl

/-- An attempt is a run of what may answer nothing. -/
theorem attempt_marked (hp : p.Appends) (k : Checkpoint σ) :
    k.marked.attempt p = ((k.run p.optional).1, (k.run p.optional).2.marked) := by
  have h := rewind_mark (hp k.cursor k.journal)
  simp only [Transaction.attempt, run, Parser.optional, marked]
  cases hr : p k.cursor k.journal with
  | ok a c j => rfl
  | miss i e j =>
    rw [hr] at h
    exact congrArg (Except.ok none, Transaction.mk k.cursor · k.savedCursor _ k.reference) h
  | fatal i e j => rfl

/-- A look ahead is the same, since the mark takes back what it appends. -/
theorem peek_marked (hp : p.Appends) (k : Checkpoint σ) :
    k.marked.peek p = ((k.run p.wouldMatch).1, (k.run p.wouldMatch).2.marked) := by
  have h := rewind_mark (hp k.cursor k.journal)
  simp only [Transaction.peek, run, Parser.wouldMatch, marked, h]
  cases p k.cursor k.journal <;> rfl

/-- Giving up is going back to the mark. -/
theorem Grown.drop_marked (h : k.Grown) : k.marked.drop = k.drop := rewind_mark h

/-- Going back to the mark is going back to the journal. -/
theorem Grown.rollback_marked (h : k.Grown) : k.marked.rollback = k.rollback.marked :=
  congrArg (Transaction.mk k.savedCursor · k.savedCursor _ k.reference) (rewind_mark h)

/-- What is finished with needs no mark. -/
theorem finish_marked (k : Checkpoint σ) : k.marked.finish = k.finish :=
  congrArg (Prod.mk (k.cursor.withReference k.reference)) (rewind_mark (extends_refl k.journal))

/-- What is settled needs no mark. -/
theorem Grown.settle_marked (h : k.Grown) : k.marked.settle = k.settle := by
  rw [Transaction.settle, h.rollback_marked, finish_marked]
  rfl

/-- The transaction takes the step of the checkpoint. -/
theorem Grown.step_marked (h : k.Grown) (hx : x.Appends) : k.marked.step x = (k.step x).marked := by
  cases x with
  | run p => exact congrArg Prod.snd (run_marked p.parser k)
  | attempt p => exact congrArg Prod.snd (attempt_marked (p.appends hx) k)
  | peek p => exact congrArg Prod.snd (peek_marked (p.appends hx) k)
  | indentHere => rfl
  | record f => rfl
  | commit => rfl
  | rollback => exact h.rollback_marked

/-- A run of what appends only grows. -/
theorem Grown.run (h : k.Grown) (hp : p.Appends) : (k.run p).2.Grown := by
  have hp := hp k.cursor k.journal
  rw [Checkpoint.run]
  cases hr : p k.cursor k.journal with
  | ok a c j => rw [hr] at hp; exact extends_trans h hp
  | miss i e j => rw [hr] at hp; exact extends_trans h hp
  | fatal i e j => rw [hr] at hp; exact extends_trans h hp

/-- A step of what appends only grows. -/
theorem Grown.step (h : k.Grown) (hx : x.Appends) : (k.step x).Grown := by
  cases x with
  | run p => exact h.run (p.appends hx)
  | attempt p => exact h.run (p.appends hx).optional
  | peek p => exact h.run .wouldMatch
  | indentHere => exact h
  | record f => exact extends_trans h (hx k.journal)
  | commit => exact extends_refl k.journal
  | rollback => exact extends_refl k.savedJournal

/-- The transaction and the checkpoint are in step. -/
theorem after_marked (c : Cursor) (j : σ) (h : ∀ x ∈ xs, x.Appends) :
    Transaction.after c j xs = (after c j xs).marked ∧ (after c j xs).Grown := by
  induction xs using List.reverseRecOn with
  | nil => exact ⟨rfl, extends_refl j⟩
  | append_singleton xs x ih =>
    obtain ⟨hxs, hx⟩ := List.forall_mem_append.1 h
    have hx := List.forall_mem_singleton.1 hx
    obtain ⟨hmarked, hgrown⟩ := ih hxs
    rw [after_concat, Transaction.after, List.foldl_append]
    refine ⟨?_, hgrown.step hx⟩
    change (Transaction.after c j xs).step x = _
    rw [hmarked, hgrown.step_marked hx]

end Checkpoint

namespace Transaction

variable [Journal σ] {t t' : Transaction σ} {p : Parser σ α}

/-- A look ahead leaves the transaction as it was. -/
theorem peek_eq (hp : p.Appends) (t : Transaction σ) : (t.peek p).2 = t := by
  have h := rewind_mark (hp t.cursor t.journal)
  simp only [peek, h]
  cases p t.cursor t.journal <;> rfl

/-- An attempt that comes to nothing leaves the transaction as it was. -/
theorem of_attempt_eq_none (hp : p.Appends) (h : t.attempt p = (.ok none, t')) : t' = t := by
  have hrewind := rewind_mark (hp t.cursor t.journal)
  rw [attempt] at h
  cases hr : p t.cursor t.journal with
  | ok a c j => simp [hr] at h
  | fatal i x j => simp [hr] at h
  | miss i e j =>
    rw [hr] at h hrewind
    cases h
    exact congrArg (Transaction.mk t.cursor · t.savedCursor t.mark t.reference) hrewind

/-- Where all that is done appends, in whatever order and whether it fails or not: a transaction
    that is ended is ended where it is, with the journal that it has, or where it was last
    committed, with the journal of then; and with the reference that it began with. Given up, it
    leaves the journal of the last commit, and going back is being again as it was then. Looks ahead
    and attempts that miss change nothing. A checkpoint, which has saved the journal itself, ends in
    the same way. -/
theorem restores (c : Cursor) (j : σ) (xs : List (Step σ)) (h : ∀ x ∈ xs, x.Appends) :
    let t := after c j xs
    let s := committed c j xs
    let k := Checkpoint.after c j xs
    t.finish = (t.cursor.withReference c.reference, t.journal) ∧
      t.settle = (s.cursor.withReference c.reference, s.journal) ∧
      t.drop = s.journal ∧
      t.rollback = s ∧
      (∀ {α : Type} (p : Plan σ α), p.Leaves Parser.Appends → (t.peek p.parser).2 = t) ∧
      (∀ {α : Type} (p : Plan σ α) (t' : Transaction σ), p.Leaves Parser.Appends →
        t.attempt p.parser = (.ok none, t') → t' = t) ∧
      t = k.marked ∧ t.finish = k.finish ∧ t.settle = k.settle ∧ t.drop = k.drop := by
  intro t s k
  obtain ⟨hmarked, hgrown⟩ := Checkpoint.after_marked c j h
  have hcommitted : s = k.rollback.marked := by
    -- The steps up to the last commit append as well.
    have hxs : ∀ x ∈ xs.rdropWhile (!Step.isCommit ·), x.Appends := fun x hx =>
      h x ((List.rdropWhile_prefix _ _).subset hx)
    rw [Checkpoint.rollback_after]
    exact (Checkpoint.after_marked c j hxs).1
  have hreference : k.reference = c.reference := Checkpoint.reference_after c j xs
  have hfinish : t.finish = k.finish := by rw [← Checkpoint.finish_marked k, ← hmarked]
  have hsettle : t.settle = k.settle := by rw [← hgrown.settle_marked, ← hmarked]
  have hdrop : t.drop = k.drop := by rw [← hgrown.drop_marked, ← hmarked]
  refine ⟨?_, ?_, ?_, ?_, fun p hp => peek_eq (p.appends hp) t,
    fun p t' hp hnone => of_attempt_eq_none (p.appends hp) hnone, hmarked, hfinish, hsettle, hdrop⟩
  · rw [hfinish, Checkpoint.finish, hreference, show t = k.marked from hmarked]
    rfl
  · rw [hsettle, Checkpoint.settle, Checkpoint.finish, hcommitted, ← hreference]
    rfl
  · rw [hdrop, hcommitted]
    rfl
  · rw [show t = k.marked from hmarked, hgrown.rollback_marked, hcommitted]

/-- Claims an id and saves that. Then a jump is written down, but no second letter is found. -/
def claimAndJump : List (Step Facts) :=
  [.run (.leaf (Parser.char 'a')), .run (.leaf (Rule.declare 0 "a")), .commit,
    .record (·.jumpTo 1 "b"), .indentHere, .run (.leaf (Parser.char 'b'))]

/-- The id stays claimed where the transaction is given up, but the jump is forgotten. -/
theorem restores_claim : (∀ x ∈ claimAndJump, x.Appends) ∧
    (after (.ofChars ['a', 'x'] 4) .empty claimAndJump).journal =
      (Facts.empty.declare 0 "a").jumpTo 1 "b" ∧
    (after (.ofChars ['a', 'x'] 4) .empty claimAndJump).drop = Facts.empty.declare 0 "a" := by
  have h : ∀ x ∈ claimAndJump, x.Appends := by
    simp only [claimAndJump, List.forall_mem_cons]
    refine ⟨.satisfy _ _, Rule.appends_declare 0 "a", trivial, fun f => ?_, trivial, .satisfy _ _,
      List.forall_mem_nil _⟩
    exact (f.extends_found 1 "b" "b" .text).2.1
  refine ⟨h, rfl, ?_⟩
  obtain ⟨-, -, hdrop, -⟩ := restores (.ofChars ['a', 'x'] 4) .empty claimAndJump h
  exact hdrop

end Transaction

end Dialogue
