import Dialogue.Parser

/-!
# Checkpoints

A *checkpoint* runs parsers one by one and remembers a place to go back to. Nothing is
lost by going on after a failure: a failing run leaves the cursor where it was, and
going back restores the cursor and the journal as they were saved.
-/

namespace Dialogue

/-- A parse in steps, with a place to go back to. -/
structure Checkpoint (σ : Type) where
  /-- Where the parse is. -/
  cursor : Cursor
  /-- The journal so far. -/
  journal : σ
  /-- Where the parse was when it was last saved. -/
  savedCursor : Cursor
  /-- The journal when the parse was last saved. -/
  savedJournal : σ
  /-- The reference that the parse began with. -/
  reference : Reference

namespace Checkpoint

variable {σ α : Type}

/-- Begins a parse, saving its start. -/
def start (c : Cursor) (j : σ) : Checkpoint σ := ⟨c, j, c, j, c.reference⟩

/-- Runs a parser and moves behind what it read. -/
def run (p : Parser σ α) (t : Checkpoint σ) : Except Failure α × Checkpoint σ :=
  match p t.cursor t.journal with
  | .ok a c j => (.ok a, { t with cursor := c, journal := j })
  | .miss i e j => (.error (.miss i e), { t with journal := j })
  | .fatal i r j => (.error (.fatal i r), { t with journal := j })

/-- Takes the indentation of the current place as the reference. -/
def indentHere (t : Checkpoint σ) : Checkpoint σ :=
  { t with cursor := t.cursor.withReference t.cursor.here }

/-- Writes into the journal. -/
def record (f : σ → σ) (t : Checkpoint σ) : Checkpoint σ := { t with journal := f t.journal }

/-- Saves the current place and journal. -/
def commit (t : Checkpoint σ) : Checkpoint σ :=
  { t with savedCursor := t.cursor, savedJournal := t.journal }

/-- Goes back to what was saved. -/
def rollback (t : Checkpoint σ) : Checkpoint σ :=
  { t with cursor := t.savedCursor, journal := t.savedJournal }

/-- Ends the parse where it is. The reference it began with is given back. -/
def finish (t : Checkpoint σ) : Cursor × σ := (t.cursor.withReference t.reference, t.journal)

/-- Ends the parse where it was saved. -/
def settle (t : Checkpoint σ) : Cursor × σ := t.rollback.finish

/-- Abandons the parse; the saved journal is what is left. -/
def drop (t : Checkpoint σ) : σ := t.savedJournal

end Checkpoint

end Dialogue
