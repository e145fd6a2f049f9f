import Dialogue.Parser

/-!
# Repetition

Parsers that run another one over and over. A repetition goes on only where the last
item took at least one character, so the bytes ahead bound the number of its steps.
-/

namespace Dialogue.Parser

variable {σ α β : Type}

/-- Runs `p` as long as it applies. Where it misses while `owed` items are still to
    come, the repetition misses. An item that takes nothing is the last one. -/
def many (p : Parser σ α) (owed : Nat) : Parser σ (List α) := fun c j =>
  match p c j with
  | .ok a c' j' =>
    if _h : c'.remaining < c.remaining then (many p (owed - 1) c' j').map (a :: ·)
    else .ok [a] c' j'
  | .miss i e _ => if owed = 0 then .ok [] c j else .miss i [Failure.owing owed e] j
  | .fatal i r j' => .fatal i r j'
termination_by c => c.remaining

/-- Runs `p` until `stop` applies, which is only looked at. Where `p` takes nothing, or
    misses at the end of the source, it is `stop` that was expected. -/
def manyTill (p : Parser σ α) (stop : Parser σ β) : Parser σ (List α) := fun c j =>
  match stop c j with
  | .ok _ _ _ => .ok [] c j
  | .fatal i r j' => .fatal i r j'
  | .miss i e _ =>
    match p c j with
    | .ok a c' j' =>
      if _h : c'.remaining < c.remaining then (manyTill p stop c' j').map (a :: ·)
      else .miss i e j
    | .miss i' e' _ => if c.atEnd then .miss i e j else .miss i' e' j
    | .fatal i r j' => .fatal i r j'
termination_by c => c.remaining

/-- Folds further operands into `acc`, each joined by an operator, from the left. -/
def chainRest (operand : Parser σ α) (operator : Parser σ (α → α → α)) (acc : α) :
    Parser σ α := fun c j =>
  match (do let f ← operator; let a ← operand; pure (f acc a) : Parser σ α) c j with
  | .ok acc' c' j' =>
    if _h : c'.remaining < c.remaining then chainRest operand operator acc' c' j'
    else .fatal c.index .endless j'
  | .miss _ _ _ => .ok acc c j
  | .fatal i r j' => .fatal i r j'
termination_by c => c.remaining

/-- Operands joined by operators, folded from the left. An operator without an operand
    after it is left alone. -/
def chainLeft (operand : Parser σ α) (operator : Parser σ (α → α → α)) : Parser σ α :=
  operand >>= chainRest operand operator

end Dialogue.Parser
