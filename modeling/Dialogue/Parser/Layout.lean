import Dialogue.Parser.Repetition
import Dialogue.Parser.Token

/-!
# Layout

What depends on lines and their indentation. A check compares the column of the line
that the cursor is on with the column of the reference line, and takes nothing.
-/

namespace Dialogue.Parser

variable {σ α β : Type}

/-- Checks the column of the line against the column of the reference. -/
def indentation (accepts : Nat → Nat → Bool) (what : Nat → String) :
    Parser σ Nat := fun c j =>
  let column := c.column
  let reference := c.reference.column
  if accepts column reference then .ok column c j else .miss c.index [what reference] j

/-- A line indented like the reference. -/
def same : Parser σ Nat :=
  indentation (fun column reference => column = reference) fun reference =>
    s!"line indented to column {reference}"

/-- A line indented like the reference or more. -/
def sameOrIndented : Parser σ Nat :=
  indentation (fun column reference => reference ≤ column) fun reference =>
    s!"line indented to column {reference} or more"

/-- A line indented more than the reference. -/
def indented : Parser σ Nat :=
  indentation (fun column reference => reference < column) fun reference =>
    s!"line indented past column {reference}"

/-- A line back at the indentation of the reference. -/
def unindented : Parser σ Nat :=
  indentation (fun column reference => column = reference) fun reference =>
    s!"line unindented to column {reference}"

/-- Blank lines, as many as there are. Blanks before a character that is no line break
    are left alone. -/
def blankLines : Parser σ Unit := do
  let _ ← many (blanks *> newline) 0
  discard (optional (blanks *> eof))

/-- The end of the line, with the blanks before it and the blank lines after it. At the
    start of a line only the blank lines are taken. -/
def lineEnd : Parser σ Unit := fun c j =>
  if c.atLineStart then blankLines c j else (blanks *> eol *> blankLines) c j

/-- Items on lines of their own. Before each further item, `continues` must apply at the
    first character of the next line that is not blank; the line where it misses is left
    alone. Fewer items than owed are a miss, unless the source ends. -/
def block (item : Parser σ α) (continues : Parser σ β) (owed : Nat) :
    Parser σ (List α) := fun c j =>
  match (item <* lineEnd) c j with
  | .miss i e j' => .miss i e j'
  | .fatal i r j' => .fatal i r j'
  | .ok a c' j' =>
    if c'.atEnd then .ok [a] c' j'
    else
      let next := c'.skipWhile Text.isBlank
      -- Where the line does not belong to the block, its blanks are left ahead as well.
      match continues next j' with
      | .ok _ _ j'' =>
        if _h : next.remaining < c.remaining then
          (block item continues (owed - 1) next j'').map (a :: ·)
        else .fatal next.index .endless j''
      | .miss i e _ =>
        if owed ≤ 1 then .ok [a] c' j' else .miss i [Failure.owing (owed - 1) e] j'
      | .fatal i r j'' => .fatal i r j''
termination_by c => c.remaining

end Dialogue.Parser
