import Dialogue.Catalog
import Dialogue.Node

/-!
# Graphs

A compiled story is a *graph*: named blocks of nodes, of which the main block is where
the story starts. Merging two graphs joins the blocks of one id. A graph whose nodes
lead to a block that is not there has *problems*.
-/

namespace Dialogue

/-- The blocks of a story, by id. -/
abbrev Graph := Catalog (List Node)

namespace Graph

/-- The id of the main block. No name in a script starts with an underscore. -/
def main : String := "_main"

/-- The nodes of a block, if there are any. -/
def block (g : Graph) (id : String) : List Node := (g.get? id).getD []

/-- Adds nodes at the end of a block, which need not exist before. -/
def append (g : Graph) (id : String) (nodes : List Node) : Graph :=
  g.insert id (g.block id ++ nodes)

/-- The graph of a list of blocks; blocks of one id are joined. -/
def ofBlocks (blocks : List (String × List Node)) : Graph :=
  blocks.foldl (fun g b => g.append b.1 b.2) ∅

/-- The graph that has a main block only. -/
def ofMain (nodes : List Node) : Graph := append ∅ main nodes

/-- Both graphs in one; blocks of one id are joined, those of `g` first. -/
def merge (g h : Graph) : Graph := h.entries.foldl (fun g b => g.append b.1 b.2) g

/-- Moves the nodes of the main block to the end of another one, which then exists. -/
def renameMain (g : Graph) (id : String) : Graph := append (g.erase main) id (g.block main)

/-- Nodes are appended to the block of their id, and to no other. -/
theorem get?_append (g : Graph) (id : String) (nodes : List Node) (x : String) :
    (g.append id nodes).get? x = if id = x then some (g.block id ++ nodes) else g.get? x :=
  Catalog.get?_insert ..

/-- The nodes of a block that was appended to are the old ones and then the new ones. -/
theorem block_append (g : Graph) (id : String) (nodes : List Node) (x : String) :
    (g.append id nodes).block x = if id = x then g.block x ++ nodes else g.block x := by
  unfold block
  rw [get?_append]
  split
  · rename_i h
    rw [h]
    rfl
  · rfl

/-- Adding blocks of distinct ids in turn adds to each block once. -/
theorem get?_foldl_append {blocks : List (String × List Node)}
    (h : blocks.Pairwise fun a b => a.1 < b.1) (g : Graph) (x : String) :
    (blocks.foldl (fun g b => g.append b.1 b.2) g).get? x =
      match Catalog.find? x blocks with
      | some nodes => some (g.block x ++ nodes)
      | none => g.get? x := by
  induction blocks generalizing g with
  | nil => rfl
  | cons b rest ih =>
    obtain ⟨id, nodes⟩ := b
    obtain ⟨hid, hrest⟩ := List.pairwise_cons.1 h
    rw [List.foldl_cons, ih hrest, get?_append, block_append]
    by_cases hx : id = x
    · subst hx
      -- No later block has this id.
      rw [Catalog.find?_eq_none_of_lt hid]
      simp [Catalog.find?]
    · simp [Catalog.find?, hx]

/-- A block of two merged graphs is what it was in the first and then in the second. -/
theorem get?_merge (g h : Graph) (x : String) :
    (g.merge h).get? x =
      match h.get? x with
      | some nodes => some (g.block x ++ nodes)
      | none => g.get? x :=
  get?_foldl_append h.sorted g x

/-- A block that was erased has no nodes. -/
theorem block_erase (g : Graph) (id x : String) :
    block (g.erase id) x = if id = x then [] else g.block x := by
  unfold block
  rw [Catalog.get?_erase]
  split <;> rfl

/-- The main block is moved behind the block of the new id. -/
theorem get?_renameMain (g : Graph) (id x : String) :
    (g.renameMain id).get? x =
      if id = x then some ((if main = id then [] else g.block id) ++ g.block main)
      else if main = x then none else g.get? x := by
  rw [renameMain, get?_append, block_erase, Catalog.get?_erase]

/-- A block that a node leads to is missing. -/
structure Problem where
  /-- The missing block. -/
  missing : String
  /-- The place of the node in its block. -/
  index : Nat
  /-- The block of the node. -/
  block : String
  deriving DecidableEq

/-- The problem in words. -/
def Problem.message (p : Problem) : String :=
  s!"missing block '{p.missing}' (node {p.index} of block '{p.block}')"

/-- The nodes that lead to no block, in order. -/
def problems (g : Graph) : List Problem :=
  g.entries.flatMap fun (id, nodes) =>
    nodes.zipIdx.filterMap fun (node, index) =>
      node.target?.bind fun target =>
        if g.contains target then none else some ⟨target, index, id⟩

end Graph

end Dialogue
