import Dialogue.Cursor
import Dialogue.Parser.Failure

/-!
# Parsers

A *parser* reads ahead from a cursor. It also keeps a *journal*, a value that its
steps write down facts in. It replies with a value and the cursor behind what it read,
or it misses, or it fails for good; in each case with the journal as it then is.

Giving up an alternative goes on from the cursor and the journal of before, so nothing
that an abandoned step wrote down stays. A fatal failure is never given up.
-/

namespace Dialogue

/-- What a parser answers. -/
inductive Reply (σ α : Type) where
  /-- A value, and the cursor behind what was read. -/
  | ok (value : α) (cursor : Cursor) (journal : σ)
  /-- The parser does not apply: what it would have taken at an offset. -/
  | miss (index : Nat) (expected : List String) (journal : σ)
  /-- The parse cannot go on. -/
  | fatal (index : Nat) (reason : Reason) (journal : σ)

namespace Reply

variable {σ α β : Type}

/-- The journal afterwards. -/
def journal : Reply σ α → σ
  | ok _ _ j => j
  | miss _ _ j => j
  | fatal _ _ j => j

/-- The value and the cursor, or the failure. -/
def outcome : Reply σ α → Except Failure (α × Cursor)
  | ok a c _ => .ok (a, c)
  | miss i e _ => .error (.miss i e)
  | fatal i r _ => .error (.fatal i r)

/-- Changes the value. -/
def map (f : α → β) : Reply σ α → Reply σ β
  | ok a c j => ok (f a) c j
  | miss i e j => miss i e j
  | fatal i r j => fatal i r j

/-- Goes on with the value, the cursor and the journal. -/
def bind (r : Reply σ α) (f : α → Cursor → σ → Reply σ β) : Reply σ β :=
  match r with
  | ok a c j => f a c j
  | miss i e j => miss i e j
  | fatal i r j => fatal i r j

end Reply

/-- Reads ahead from a cursor, writing into a journal. -/
def Parser (σ α : Type) : Type := Cursor → σ → Reply σ α

namespace Parser

variable {σ α β : Type}

/-- Parsers run one after the other, with the journal that the first one leaves. -/
instance : Monad (Parser σ) where
  pure a := fun c j => .ok a c j
  bind p f := fun c j => (p c j).bind f

/-- A value is answered where the parser starts. -/
theorem pure_apply (a : α) (c : Cursor) (j : σ) : (pure a : Parser σ α) c j = .ok a c j := rfl

/-- The second parser starts where the first one stopped. -/
theorem bind_apply (p : Parser σ α) (f : α → Parser σ β) (c : Cursor) (j : σ) :
    (p >>= f) c j = (p c j).bind f := rfl

/-- Parsers may be grouped in any way. -/
instance : LawfulMonad (Parser σ) := LawfulMonad.mk' (Parser σ)
  (fun p => by funext c j; change (p c j).bind _ = _; cases p c j <;> rfl)
  (fun _ _ => rfl)
  (fun p f g => by
    funext c j
    change ((p c j).bind f).bind g = (p c j).bind fun a c j => (f a c j).bind g
    cases p c j <;> rfl)

/-- Misses here: `what` was expected. -/
def expected (what : String) : Parser σ α := fun c j => .miss c.index [what] j

/-- Fails for good at an offset. -/
def fatalAt (index : Nat) (reason : Reason) : Parser σ α := fun _ j => .fatal index reason j

/-- The offset of the cursor. -/
def position : Parser σ Nat := fun c j => .ok c.index c j

/-- The journal so far. -/
def journal : Parser σ σ := fun c j => .ok j c j

/-- Writes into the journal. -/
def record (f : σ → σ) : Parser σ Unit := fun c j => .ok () c (f j)

/-- Moves over the longest run of characters in a class. -/
def takeWhile (p : Char → Bool) : Parser σ (List Char) := fun c j =>
  let run := c.rest.takeWhile p
  .ok run (c.skip run.length) j

/-- Takes one character of a class. -/
def satisfy (p : Char → Bool) (what : String) : Parser σ Char := fun c j =>
  match c.rest with
  | x :: _ => if p x then .ok x (c.skip 1) j else .miss c.index [what] j
  | [] => .miss c.index [what] j

/-- Tries `p`, and if it misses `q` from the same place. If both miss, either would
    have been taken at the place where they started. -/
def orElse (p q : Parser σ α) : Parser σ α := fun c j =>
  match p c j with
  | .miss _ e _ =>
    match q c j with
    | .miss _ e' _ => .miss c.index (Failure.union e e') j
    | reply => reply
  | reply => reply

/-- An alternative is tried from the place and the journal of before. -/
instance : OrElse (Parser σ α) := ⟨fun p q => orElse p (q ())⟩

/-- Runs `p`, answering nothing where it misses. -/
def optional (p : Parser σ α) : Parser σ (Option α) := fun c j =>
  match p c j with
  | .ok a c' j' => .ok (some a) c' j'
  | .miss _ _ _ => .ok none c j
  | .fatal i r j' => .fatal i r j'

/-- Runs `p` and refuses some of its values. -/
def filter (accepts : α → Bool) (what : String) (p : Parser σ α) : Parser σ α := fun c j =>
  match p c j with
  | .ok a c' j' => if accepts a then .ok a c' j' else .miss c.index [what] j
  | reply => reply

/-- Checks that `p` applies here, and takes nothing. -/
def lookAhead (p : Parser σ α) : Parser σ Unit := fun c j =>
  match p c j with
  | .ok _ _ _ => .ok () c j
  -- What is missing further ahead is expected here, where nothing is taken.
  | .miss _ e _ => .miss c.index e j
  | .fatal i r _ => .fatal i r j

/-- Checks that `p` does not apply here, and takes nothing. -/
def notFollowedBy (p : Parser σ α) (what : String) : Parser σ Unit := fun c j =>
  match p c j with
  | .ok _ _ _ => .miss c.index [what] j
  | .miss _ _ _ => .ok () c j
  | .fatal i r _ => .fatal i r j

/-- Does `p` apply here? Takes nothing. -/
def wouldMatch (p : Parser σ α) : Parser σ Bool := fun c j =>
  match p c j with
  | .ok _ _ _ => .ok true c j
  | .miss _ _ _ => .ok false c j
  | .fatal i r _ => .fatal i r j

/-- Runs `p` with the indentation of the place where it starts as the reference, and
    gives the old reference back. -/
def atOwnIndent (p : Parser σ α) : Parser σ α := fun c j =>
  match p (c.withReference c.here) j with
  | .ok a c' j' => .ok a (c'.withReference c.reference) j'
  | reply => reply

/-- Runs `p` once more than `n` times, each time from where it stopped, for the last
    value. -/
def again (p : Parser σ α) : Nat → Parser σ α
  | 0 => p
  | n + 1 => p >>= fun _ => again p n

end Parser

end Dialogue
