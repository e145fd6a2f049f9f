import Dialogue.Story

/-!
# Requests

What a host may ask of a story, one call after the other. The view belongs to the host,
which may pass another one each time.
-/

namespace Dialogue

/-- A call of the host. -/
inductive Request where
  /-- Start at the main block. -/
  | start
  /-- Start at a block. -/
  | startAt (id : String)
  /-- Go on if the story waits for nothing. -/
  | advance
  /-- End a wait. -/
  | resume
  /-- Let time pass. -/
  | update (elapsed : Float)
  /-- Pick a choice. -/
  | choose (id : String)
  /-- Give a variable a value. -/
  | set (name : String) (v : Value)

namespace Story

/-- What a call leads to. A variable is given a value without anything else happening. -/
def serve (s : Story) (v : View) : Request → Turn
  | .start => s.start v
  | .startAt id => s.startAt v id
  | .advance => s.advance v
  | .resume => s.resume v
  | .update elapsed => s.update v elapsed
  | .choose id => s.choose v id
  | .set name value =>
    match s.setVariable name value with
    | .ok s' => s'.idle v
    | .error e => s.refuse v e

/-- What the calls of a host lead to, one after the other. -/
def turns (s : Story) : List (View × Request) → List Turn
  | [] => []
  | (v, r) :: rest =>
    let t := s.serve v r
    t :: t.story.turns rest

end Story

end Dialogue
