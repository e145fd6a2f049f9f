import Dialogue.Node

/-!
# Views

A view is what the host shows: the lines of dialogue and the choices on offer. Lines
and choices do not affect each other.
-/

namespace Dialogue

/-- A line of dialogue. -/
structure Line where
  /-- Who speaks, if anybody. -/
  speaker : Option String
  /-- What is said. -/
  text : String
  deriving DecidableEq

/-- A choice that may be picked. -/
structure Offer where
  /-- The block it leads to. -/
  id : String
  /-- Its prompt. -/
  text : String
  deriving DecidableEq

/-- What the host shows. -/
structure View where
  /-- The lines, the oldest first. -/
  lines : List Line := []
  /-- The choices, in the order of their first offer. -/
  choices : List Offer := []
  deriving DecidableEq

namespace View

/-- The view of nothing. -/
def empty : View := {}

/-- Is there a choice with this id? -/
def hasChoice (v : View) (id : String) : Bool := v.choices.any (·.id = id)

/-- Shows one line in place of all. -/
def say (v : View) (speaker : Option String) (text : String) : View :=
  { v with lines := [⟨speaker, text⟩] }

/-- One text after another, with a space between them unless one is empty. -/
def joined (s t : String) : String := if s = "" || t = "" then s ++ t else s ++ " " ++ t

/-- Adds a text to the end of the lines. The last line goes on if its speaker does. -/
def appendLine (speaker : Option String) (text : String) : List Line → List Line
  | [] => [⟨speaker, text⟩]
  | [last] =>
    if last.speaker = speaker then [⟨speaker, joined last.text text⟩]
    else [last, ⟨speaker, text⟩]
  | line :: rest => line :: appendLine speaker text rest

/-- Adds a text to the end of the lines. -/
def append (v : View) (speaker : Option String) (text : String) : View :=
  { v with lines := appendLine speaker text v.lines }

/-- Adds a choice, or changes the prompt of the one with this id. -/
def offerChoice (id text : String) : List Offer → List Offer
  | [] => [⟨id, text⟩]
  | o :: rest => if o.id = id then ⟨id, text⟩ :: rest else o :: offerChoice id text rest

/-- Adds a choice, or changes the prompt of the one with this id. -/
def offer (v : View) (id text : String) : View :=
  { v with choices := offerChoice id text v.choices }

/-- Removes lines, choices or both. -/
def clear (v : View) : ClearKind → View
  | .all => empty
  | .choices => { v with choices := [] }
  | .dialog => { v with lines := [] }

end View

end Dialogue
