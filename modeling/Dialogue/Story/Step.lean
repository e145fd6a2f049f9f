import Dialogue.Expr.Eval
import Dialogue.Graph
import Dialogue.View

/-!
# Steps

A step carries out one node: it evaluates what the node says, changes the view, tells
the host whether the story waits for something, and says where it goes on. A node that
fails changes nothing.
-/

namespace Dialogue

/-- What the story waits for. -/
inductive Signal where
  /-- Nothing; the next node can be carried out. -/
  | advance
  /-- For the host to go on. -/
  | awaitResume
  /-- For a number of seconds to pass. -/
  | awaitDuration (seconds : Float)
  /-- For a choice to be picked. -/
  | awaitChoice
  /-- Nothing; the story is over. -/
  | finished
  deriving DecidableEq

namespace Signal

/-- Does the story wait? -/
def suspends : Signal → Bool
  | awaitResume => true
  | awaitDuration _ => true
  | awaitChoice => true
  | _ => false

/-- The seconds that a pause takes. -/
def seconds? : Signal → Option Float
  | awaitDuration s => some s
  | _ => none

/-- The signal in words. -/
def text : Signal → String
  | advance => "advance"
  | awaitResume => "await resume"
  | awaitDuration s => "await " ++ Number.text s ++ "s"
  | awaitChoice => "await choice"
  | finished => "finished"

end Signal

/-- Why a story cannot go on, or refuses what the host asks for. -/
inductive StoryError where
  /-- Nodes of the graph lead nowhere. -/
  | invalid (problems : List Graph.Problem)
  /-- There is no such block to start at. -/
  | unknownBlock (id : String)
  /-- The choice is not on offer. -/
  | unknownChoice (id : String)
  /-- No choice can be picked now. -/
  | notAwaitingChoice
  /-- A choice must be picked first. -/
  | awaitingChoice
  /-- A choice is awaited, but none is on offer. -/
  | noChoices
  /-- So many nodes were carried out in one go. -/
  | runaway (steps : Nat)
  /-- An expression has no value. -/
  | eval (e : EvalError)
  /-- A variable would change its category. -/
  | scope (e : TypeChange)
  deriving DecidableEq

/-- The error in words. -/
def StoryError.message : StoryError → String
  | invalid problems => "invalid script: " ++ "; ".intercalate (problems.map (·.message))
  | unknownBlock id => s!"no block named '{id}'"
  | unknownChoice id => s!"'{id}' is not an open choice"
  | notAwaitingChoice => "the story is not waiting for a choice"
  | awaitingChoice => "the story is waiting for a choice, not a resume"
  | noChoices => "reached `choose` with no open choices"
  | runaway steps => s!"{steps} nodes ran without suspending"
  | eval e => e.message
  | scope e => e.message

/-- Where a story goes on. -/
inductive Flow where
  /-- After the node. -/
  | next
  /-- At the start of a block. -/
  | jump (id : String)
  /-- After the place that the block was entered from. -/
  | leave
  deriving DecidableEq

/-- What a node does to the story. -/
structure Step where
  /-- What the story waits for. -/
  signal : Signal
  /-- Where it goes on. -/
  flow : Flow
  deriving DecidableEq

namespace Step

/-- Going on at once. -/
def advance : Step := ⟨.advance, .next⟩

/-- Waiting, and then going on after the node. -/
def await (s : Signal) : Step := ⟨s, .next⟩

end Step

/-- The value of an expression, for a story. -/
def Expr.value {k : Category} (e : Expr k) (s : Scope) (bs : Bindings) :
    Except StoryError k.Carrier := (e.eval s bs).mapError .eval

/-- Carries out a node. A pause that is not longer than zero seconds is none. -/
def Node.step (s : Scope) (bs : Bindings) (v : View) : Node → Except StoryError (Step × View)
  | say speaker dialog => return (.advance, v.say speaker (← dialog.value s bs))
  | append speaker dialog => return (.advance, v.append speaker (← dialog.value s bs))
  | offer id text => return (.advance, v.offer id (← text.value s bs))
  | choose => if v.choices.isEmpty then .error .noChoices else return (.await .awaitChoice, v)
  | clear kind => return (.advance, v.clear kind)
  | jump id => return (⟨.advance, .jump id⟩, v)
  | wait => return (.await .awaitResume, v)
  | pause seconds => do
    let t ← seconds.value s bs
    return (if 0 < t then .await (.awaitDuration t) else .advance, v)
  | leave => return (⟨.advance, .leave⟩, v)

end Dialogue
