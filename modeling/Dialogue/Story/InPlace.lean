import Dialogue.Story.Session

/-!
# Calls in place

A host that calls a story sees it change in place, and the view with it: first one thing
and then another, and where a call fails, all that was changed before stays changed. Here
the calls are programs of this kind (`Request.perform`), which also keep a log of the nodes
that were carried out and of what came of each. They do what `Story.serve` says.
-/

namespace Dialogue

/-- A node that was carried out, and what came of it. -/
structure Entry where
  /-- The node. -/
  node : Node
  /-- What it told the story, or why it failed. -/
  outcome : Except StoryError Step

/-- What the calls of a host change. -/
structure Stage extends Session where
  /-- The nodes that were carried out, the oldest first. -/
  log : List Entry := []

/-- Evaluates an expression for a story. -/
def Expr.evaluate {k : Category} (e : Expr k) (s : Scope) (bs : Bindings) :
    EStateM StoryError View k.Carrier :=
  match e.eval s bs with
  | .ok a => pure a
  | .error error => throw (.eval error)

/-- Carries out a node, changing the view. -/
def Node.perform (s : Scope) (bs : Bindings) : Node → EStateM StoryError View Step
  | say speaker dialog => do
    let text ← dialog.evaluate s bs
    modify (·.say speaker text)
    return .advance
  | append speaker dialog => do
    let text ← dialog.evaluate s bs
    modify (·.append speaker text)
    return .advance
  | offer id text => do
    let text ← text.evaluate s bs
    modify (·.offer id text)
    return .advance
  | choose => do
    if (← get).choices.isEmpty then throw .noChoices
    return .await .awaitChoice
  | clear kind => do
    modify (·.clear kind)
    return .advance
  | jump id => return ⟨.advance, .jump id⟩
  | wait => return .await .awaitResume
  | pause seconds => do
    let t ← seconds.evaluate s bs
    return if 0 < t then .await (.awaitDuration t) else .advance
  | leave => return ⟨.advance, .leave⟩

/-- A part of a call. What it changes before it fails stays changed. -/
abbrev Program := EStateM StoryError Stage

namespace Program

/-- Changes the story. -/
def change (f : Story → Story) : Program Unit := modify fun s => { s with story := f s.story }

/-- What the story waits for. -/
def status : Program Signal := return (← get).story.status

/-- Stops the story. -/
def halt : Program Unit := change Story.stop

/-- Carries out a node, and logs what came of it. -/
def dispatch (n : Node) : Program Step := fun s =>
  match n.perform s.story.scope s.story.bindings s.view with
  | .ok step view => .ok step { s with view, log := s.log ++ [⟨n, .ok step⟩] }
  | .error e view => .error e { s with view, log := s.log ++ [⟨n, .error e⟩] }

/-- Moves on to the next node, if there is one. Blocks that are used up are left. -/
def nextNode? : Program (Option Node) := do
  let story := (← get).story
  match Story.nextNode? story.graph story.stack with
  | some (n, stack) =>
    change ({ · with stack })
    return some n
  | none =>
    change ({ · with stack := [] })
    return none

/-- Carries out nodes until the story waits or is over, at most so many. -/
def run (steps : Nat) : Program Signal := do
  match ← nextNode? with
  | none =>
    halt
    status
  | some n =>
    match steps with
    | 0 =>
      halt
      throw (.runaway (← get).story.maxSteps)
    | steps + 1 =>
      let step ← try dispatch n catch e =>
        halt
        throw e
      change fun s => { s with stack := Story.follow step.flow s.stack }
      if let some t := step.signal.seconds? then
        change ({ · with remaining := t })
      if step.signal = .advance then run steps
      else
        change ({ · with status := step.signal })
        status

/-- Goes on from where the story is. -/
def go : Program Signal := do run (← get).story.maxSteps

/-- Goes on with nothing left of a pause. -/
def wake : Program Signal := do
  change ({ · with remaining := 0 })
  change ({ · with status := .advance })
  go

/-- Starts at a block. -/
def startAt (id : String) : Program Signal := do
  unless (← get).story.graph.contains id do throw (.unknownBlock id)
  change ({ · with stack := [⟨id, 0⟩] })
  wake

end Program

open Program in
/-- A call of the host. -/
def Request.perform : Request → Program Signal
  | start => do
    if (← get).story.graph.contains Graph.main then Program.startAt Graph.main
    else
      halt
      status
  | .startAt id => Program.startAt id
  | advance => do
    match ← status with
    | .advance => go
    | status => return status
  | resume => do
    match ← status with
    | .awaitResume | .awaitDuration _ => wake
    | .awaitChoice => throw .awaitingChoice
    | status => return status
  | update elapsed => do
    match ← status with
    | .awaitDuration _ =>
      change fun s => { s with remaining := s.remaining - elapsed }
      let left := (← get).story.remaining
      if 0 < left then
        change ({ · with status := .awaitDuration left })
        status
      else wake
    | status => return status
  | choose id => do
    if (← status) ≠ .awaitChoice then throw .notAwaitingChoice
    unless (← get).view.hasChoice id do throw (.unknownChoice id)
    modify fun s => { s with view := s.view.clear .choices }
    change fun s => { s with stack := ⟨id, 0⟩ :: s.stack }
    change ({ · with status := .advance })
    go
  | set name value => do
    match (← get).story.scope.set name value with
    | .ok scope =>
      change ({ · with scope })
      status
    | .error e => throw (.scope e)

/-- What a call does to a session. -/
def Session.perform (s : Session) (r : Request) : EStateM.Result StoryError Stage Signal :=
  r.perform { s with }

end Dialogue
