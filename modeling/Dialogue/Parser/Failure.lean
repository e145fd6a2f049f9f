/-!
# Failures

A rule that does not apply *misses*: it says where it stopped and what it would have
taken there, and another rule may be tried in its place. A *fatal* failure is a mistake
of the author that no other rule can mend; it ends the whole parse.
-/

namespace Dialogue

/-- Why a parse cannot go on at all. -/
inductive Reason where
  /-- A block has this id already. -/
  | idTaken (id : String)
  /-- No binding has this name. -/
  | unknownBinding (name : String)
  /-- The binding takes another number of arguments. -/
  | argumentCount (name : String) (count : Nat)
  /-- An earlier option has the same prompt, and neither has an id of its own. -/
  | offeredTwice (option : String)
  /-- A reason given in words. -/
  | other (words : String)
  /-- A repetition that would never end. -/
  | endless
  deriving DecidableEq

/-- The reason in words. -/
def Reason.message : Reason → String
  | idTaken id => s!"the identifier \"{id}\" has already been used"
  | unknownBinding name => s!"no binding named \"{name}\""
  | argumentCount name count => s!"\"{name}\" takes {count} argument(s)"
  | offeredTwice option =>
    s!"the option \"{option}\" is offered twice; give one of them an explicit name"
  | other words => words
  | endless => "the rule repeats without end"

/-- How a parse fails, and at which offset. -/
inductive Failure where
  /-- What would have been taken there; another rule may still apply. -/
  | miss (index : Nat) (expected : List String)
  /-- The parse cannot go on. -/
  | fatal (index : Nat) (reason : Reason)
  deriving DecidableEq

namespace Failure

/-- The offset of the failure. -/
def index : Failure → Nat
  | miss i _ => i
  | fatal i _ => i

/-- Alternatives in words. -/
def oneOf (expected : List String) : String := " or ".intercalate expected

/-- The failure in words. -/
def message : Failure → String
  | miss i e =>
    let wanted := oneOf e
    s!"expected {wanted} at offset {i}"
  | fatal i r =>
    let words := r.message
    s!"{words} (at offset {i})"

/-- What either of two rules would have taken, without repeating the first one's. -/
def union (first second : List String) : List String :=
  second.foldl (fun all e => if all.contains e then all else all ++ [e]) first

/-- What a repetition would have taken that still owes `count` items. -/
def owing (count : Nat) (expected : List String) : String :=
  let wanted := oneOf expected
  s!"at least {count} more of {wanted}"

end Failure

end Dialogue
