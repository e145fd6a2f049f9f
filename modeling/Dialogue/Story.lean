import Dialogue.Story.Step

/-!
# Stories

A *story* runs a graph. It keeps a stack of the blocks it is in: picking a choice enters
a block, a jump replaces the block on top, and at the end of a block the story goes on
where the block was entered. The story is over when the stack is empty.

The host calls `start`, and then whichever of `resume`, `update` and `choose` ends what
the story waits for. Each call carries out nodes until the story waits again, at most
`maxSteps` of them. An error while nodes are carried out stops the story.
-/

namespace Dialogue

/-- A block that the story is in, and the next node of it. -/
structure Frame where
  /-- The block. -/
  block : String
  /-- The place of the node that comes next. -/
  next : Nat := 0
  deriving DecidableEq

/-- A story between two calls of the host. -/
structure Story where
  /-- The blocks. -/
  graph : Graph
  /-- The variables. -/
  scope : Scope
  /-- The functions of the host. -/
  bindings : Bindings
  /-- The most nodes that one call carries out. -/
  maxSteps : Nat
  /-- The blocks that the story is in, the innermost first. -/
  stack : List Frame
  /-- What the story waits for. -/
  status : Signal
  /-- What is left of a pause. -/
  remaining : Float

/-- What a call of the host leads to. -/
structure Turn where
  /-- The signal or the error. -/
  result : Except StoryError Signal
  /-- The story afterwards. -/
  story : Story
  /-- The view afterwards. -/
  view : View

namespace Story

/-- The most nodes that one call carries out, unless the host says otherwise. -/
def defaultMaxSteps : Nat := 10000

/-- A story that has not started. It refuses a graph with problems, and carries out at
    least one node a call. -/
def ofGraph (graph : Graph) (bindings : Bindings) (maxSteps : Nat) : Except StoryError Story :=
  if graph.problems.isEmpty then
    .ok ⟨graph, ∅, bindings, max maxSteps 1, [], .finished, 0⟩
  else .error (.invalid graph.problems)

/-- Is the story over? -/
def isFinished (s : Story) : Bool := s.status = .finished

/-- The innermost block. -/
def block? (s : Story) : Option String := s.stack.head?.map (·.block)

/-- The story, stopped. -/
def stop (s : Story) : Story := { s with stack := [], remaining := 0, status := .finished }

/-- The next node, with the stack after it. Blocks that are used up are left. -/
def nextNode? (g : Graph) : List Frame → Option (Node × List Frame)
  | [] => none
  | f :: rest =>
    match (g.block f.block)[f.next]? with
    | some node => some (node, { f with next := f.next + 1 } :: rest)
    | none => nextNode? g rest

/-- The stack after a node. -/
def follow : Flow → List Frame → List Frame
  | .next, stack => stack
  | .jump id, _ :: rest => ⟨id, 0⟩ :: rest
  | .jump _, [] => []
  | .leave, stack => stack.tail

/-- Carries out nodes until the story waits or is over, at most so many. -/
def run (s : Story) (v : View) (steps : Nat) : Turn :=
  match nextNode? s.graph s.stack with
  | none => ⟨.ok .finished, s.stop, v⟩
  | some (node, stack) =>
    match steps with
    -- There is a node to carry out, but so many have been carried out already.
    | 0 => ⟨.error (.runaway s.maxSteps), s.stop, v⟩
    | steps + 1 =>
      match node.step s.scope s.bindings v with
      | .error e => ⟨.error e, s.stop, v⟩
      | .ok (step, v) =>
        let s := { s with
          stack := follow step.flow stack
          -- Only the signal of a pause tells how much time is left.
          remaining := step.signal.seconds?.getD s.remaining }
        if step.signal = .advance then run s v steps
        else ⟨.ok step.signal, { s with status := step.signal }, v⟩

/-- Goes on from where the story is. -/
def go (s : Story) (v : View) : Turn := s.run v s.maxSteps

/-- The story when it goes on, with nothing left of a pause. -/
def awake (s : Story) : Story := { s with remaining := 0, status := .advance }

/-- The story when it goes on in a block that a choice leads to. -/
def enter (s : Story) (id : String) : Story :=
  { s with stack := ⟨id, 0⟩ :: s.stack, status := .advance }

/-- Nothing happens. -/
def idle (s : Story) (v : View) : Turn := ⟨.ok s.status, s, v⟩

/-- A call that the story refuses. -/
def refuse (s : Story) (v : View) (e : StoryError) : Turn := ⟨.error e, s, v⟩

/-- Starts at a block, wherever the story was. -/
def startAt (s : Story) (v : View) (id : String) : Turn :=
  if s.graph.contains id then { s with stack := [⟨id, 0⟩] }.awake.go v
  else s.refuse v (.unknownBlock id)

/-- Starts at the main block. Without one the story is over at once. -/
def start (s : Story) (v : View) : Turn :=
  if s.graph.contains Graph.main then s.startAt v Graph.main
  else s.stop.idle v

/-- Goes on if the story waits for nothing. -/
def advance (s : Story) (v : View) : Turn :=
  match s.status with
  | .advance => s.go v
  | _ => s.idle v

/-- Ends a wait, or a pause before its time. -/
def resume (s : Story) (v : View) : Turn :=
  match s.status with
  | .awaitResume | .awaitDuration _ => s.awake.go v
  | .awaitChoice => s.refuse v .awaitingChoice
  | _ => s.idle v

/-- Lets time pass. A pause ends when nothing is left of it. -/
def update (s : Story) (v : View) (elapsed : Float) : Turn :=
  match s.status with
  | .awaitDuration _ =>
    let left := s.remaining - elapsed
    if 0 < left then { s with remaining := left, status := .awaitDuration left }.idle v
    else s.awake.go v
  | _ => s.idle v

/-- Picks a choice on offer and enters its block. -/
def choose (s : Story) (v : View) (id : String) : Turn :=
  if s.status ≠ .awaitChoice then s.refuse v .notAwaitingChoice
  else if v.hasChoice id then (s.enter id).go (v.clear .choices)
  else s.refuse v (.unknownChoice id)

/-- Gives a variable a value. -/
def setVariable (s : Story) (name : String) (v : Value) : Except StoryError Story :=
  match s.scope.set name v with
  | .ok scope => .ok { s with scope }
  | .error e => .error (.scope e)

end Story

end Dialogue
