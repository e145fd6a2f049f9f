import Dialogue.Parser
import Dialogue.Value

/-!
# Facts

While a script is read, the journal of the parser collects facts about it: the ids of
its blocks, the blocks that its jumps lead to, and how it uses variables. Every fact
keeps the offset where it was found. Facts are only ever added at the end, so a *mark*,
the number of facts of each kind, is enough to go back to what was known before.
-/

namespace Dialogue

/-- Something found at an offset of the source. -/
structure Found (α : Type) where
  /-- The offset. -/
  index : Nat
  /-- What was found. -/
  item : α
  deriving DecidableEq

/-- How a script uses variables. -/
inductive Use where
  /-- A variable is used as one of a category. -/
  | typed (name : String) (category : Category)
  /-- Two variables are used as of one category, whichever it is. -/
  | linked (left right : String)
  deriving DecidableEq

/-- What is known about a script. -/
structure Facts where
  /-- The ids of blocks. -/
  declared : List (Found String) := []
  /-- The ids that jumps lead to. -/
  jumps : List (Found String) := []
  /-- The uses of variables. -/
  uses : List (Found Use) := []
  deriving DecidableEq

/-- The number of facts of each kind. -/
structure Mark where
  /-- The number of ids. -/
  declared : Nat
  /-- The number of jumps. -/
  jumps : Nat
  /-- The number of uses. -/
  uses : Nat
  deriving DecidableEq

namespace Facts

/-- Nothing is known. -/
def empty : Facts := {}

/-- Has a block this id? -/
def isDeclared (f : Facts) (id : String) : Bool := f.declared.any (·.item = id)

/-- Notes the id of a block. -/
def declare (f : Facts) (index : Nat) (id : String) : Facts :=
  { f with declared := f.declared ++ [⟨index, id⟩] }

/-- Notes a jump. -/
def jumpTo (f : Facts) (index : Nat) (id : String) : Facts :=
  { f with jumps := f.jumps ++ [⟨index, id⟩] }

/-- Notes the use of a variable as one of a category. -/
def useVariable (f : Facts) (index : Nat) (name : String) (k : Category) : Facts :=
  { f with uses := f.uses ++ [⟨index, .typed name k⟩] }

/-- Notes that two variables must be of one category. -/
def linkVariables (f : Facts) (index : Nat) (left right : String) : Facts :=
  { f with uses := f.uses ++ [⟨index, .linked left right⟩] }

/-- How much is known. -/
def mark (f : Facts) : Mark := ⟨f.declared.length, f.jumps.length, f.uses.length⟩

/-- Forgets what was found after a mark. -/
def rewind (f : Facts) (m : Mark) : Facts :=
  ⟨f.declared.take m.declared, f.jumps.take m.jumps, f.uses.take m.uses⟩

/-- Going back to the mark of now changes nothing. -/
@[simp] theorem rewind_mark (f : Facts) : f.rewind f.mark = f := by
  simp [rewind, mark]

end Facts

/-- A rule of the grammar: a parser that collects facts. -/
abbrev Rule (α : Type) := Parser Facts α

namespace Rule

/-- Claims the id of a block. No two blocks may have the same. -/
def declare (index : Nat) (id : String) : Rule Unit := fun c f =>
  if f.isDeclared id then .fatal index (.idTaken id) f else .ok () c (f.declare index id)

end Rule

end Dialogue
