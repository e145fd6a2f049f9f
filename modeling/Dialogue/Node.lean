import Dialogue.Expr.Text

/-!
# Nodes

A node is one step of a story. Where a jump or a choice leads to is given by the id of
a block.
-/

namespace Dialogue

/-- What a clearing step removes from the view. -/
inductive ClearKind where
  /-- Lines and choices. -/
  | all
  /-- The choices. -/
  | choices
  /-- The lines. -/
  | dialog
  deriving DecidableEq

/-- The word for it. -/
def ClearKind.word : ClearKind → String
  | all => "all"
  | choices => "choices"
  | dialog => "dialog"

/-- One step of a story. -/
inductive Node where
  /-- Shows a line in place of those before. -/
  | say (speaker : Option String) (dialog : Expr .text)
  /-- Adds to the lines. -/
  | append (speaker : Option String) (dialog : Expr .text)
  /-- Offers a choice that leads to a block. -/
  | offer (id : String) (text : Expr .text)
  /-- Waits until an offered choice is picked. -/
  | choose
  /-- Clears the view. -/
  | clear (kind : ClearKind)
  /-- Goes on at the start of a block. -/
  | jump (id : String)
  /-- Waits until the host goes on. -/
  | wait
  /-- Waits for a number of seconds. -/
  | pause (seconds : Expr .number)
  /-- Leaves the block. -/
  | leave

namespace Node

/-- The block that a node leads to. -/
def target? : Node → Option String
  | offer id _ => some id
  | jump id => some id
  | _ => none

/-- The text of a node, much as it is written in a script. -/
def text : Node → String
  | say speaker dialog => speaker.getD "" ++ ": " ++ dialog.text
  | append speaker dialog => speaker.getD "" ++ "+ " ++ dialog.text
  | offer id text => s!"choice [{id}] > " ++ text.text
  | choose => "choose"
  | clear kind => "clear " ++ kind.word
  | jump id => s!"jump [{id}]"
  | wait => "wait"
  | pause seconds => "pause " ++ seconds.text ++ " s"
  | leave => "return"

end Node

end Dialogue
