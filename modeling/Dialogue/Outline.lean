import Dialogue.Graph

/-!
# Outlines

An *outline* is a script as it is written: lines at one level, some of which have a body
at a deeper level. Its graph has a block for the level and one for every body below.
-/

namespace Dialogue

/-- The lines of a level, from top to bottom. -/
inductive Outline where
  /-- No more lines. -/
  | nil
  /-- A node. -/
  | node (n : Node) (rest : Outline)
  /-- A label and the block it names. -/
  | label (id : String) (body rest : Outline)
  /-- An option of a choice and the block it leads to. -/
  | option (id : String) (prompt : Expr .text) (body rest : Outline)

namespace Outline

/-- One outline below another. -/
def append : Outline → Outline → Outline
  | nil, o => o
  | node n rest, o => node n (rest.append o)
  | label id body rest, o => label id body (rest.append o)
  | option id prompt body rest, o => option id prompt body (rest.append o)

/-- One outline is put behind another at the same level. -/
instance : Append Outline := ⟨append⟩

/-- The lines of several outlines. -/
def concat (os : List Outline) : Outline := os.foldr append nil

/-- Adds an outline to a graph. Its nodes go to the main block, its options are offered
    there, and every body becomes a block of its own. -/
def addTo : Outline → Graph → Graph
  | nil, g => g
  | node n rest, g => rest.addTo (g.append Graph.main [n])
  | label id body rest, g => rest.addTo (g.merge ((body.addTo ∅).renameMain id))
  | option id prompt body rest, g =>
    rest.addTo ((g.append Graph.main [.offer id prompt]).merge ((body.addTo ∅).renameMain id))

/-- The graph of an outline. -/
def graph (o : Outline) : Graph := o.addTo ∅

end Outline

end Dialogue
