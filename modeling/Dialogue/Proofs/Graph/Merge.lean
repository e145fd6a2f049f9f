import Dialogue.Proofs.Graph.Flattening

/-!
# Merging and renaming

Graphs are a monoid under merging. A block of a merge is the block of the first graph and then the
one of the second (`Graph.get?_merge_eq`), so merges can be grouped in any way, and the graph
without blocks adds nothing. Graphs that have no block in common can also change places
(`Graph.merge_comm`).

Renaming puts the nodes of the main block behind those that the block of the new id has already. So
the main blocks of two graphs can be renamed before the graphs are merged instead of afterwards, if
the nodes that then come in another order may do so (`Graph.renameMain_merge_iff`).

* `Graph.merge_laws`: the laws of merging and of renaming under an id that is new;
* `Outline.graph_eq_merge`: the graph of an outline is its level merged with the graphs of all
  passages right below it, each of them under its id.
-/

namespace Dialogue

/-- What a catalog does not contain is not found in it. -/
theorem Catalog.get?_eq_none_of_contains {α : Type} {c : Catalog α} {x : String}
    (h : c.contains x = false) : c.get? x = none := by
  rwa [contains, Option.isSome_eq_false_iff, Option.isNone_iff_eq_none] at h

namespace Graph

/-! ## The monoid of graphs -/

/-- A block of a merge is there if either graph has it, the nodes of the first graph first. -/
theorem get?_merge_eq (g h : Graph) (x : String) :
    (g.merge h).get? x = Option.merge (· ++ ·) (g.get? x) (h.get? x) := by
  rw [get?_merge, block]
  cases g.get? x <;> cases h.get? x <;> rfl

/-- Merging is associative. -/
instance : Std.Associative merge := ⟨merge_assoc⟩

/-- The graph without blocks is neutral. -/
instance : Std.LawfulIdentity merge ∅ where
  left_id := empty_merge
  right_id := merge_empty

/-- Graphs that have no block in common can change places. -/
theorem merge_comm {g h : Graph} (hdisjoint : ∀ x, g.contains x → h.contains x = false) :
    g.merge h = h.merge g := by
  refine Catalog.ext_get? fun x => ?_
  cases hg : g.contains x with
  | true =>
    have hh := Catalog.get?_eq_none_of_contains (hdisjoint x hg)
    rw [get?_merge_left hh, get?_merge_right hh]
  | false =>
    have hg := Catalog.get?_eq_none_of_contains hg
    rw [get?_merge_right hg, get?_merge_left hg]

/-- Main nodes are merged one after the other. -/
theorem ofMain_merge (nodes nodes' : List Node) :
    (ofMain nodes).merge (ofMain nodes') = ofMain (nodes ++ nodes') := by
  refine Catalog.ext_get? fun x => ?_
  rw [get?_merge_eq, get?_ofMain, get?_ofMain, get?_ofMain]
  split <;> rfl

/-! ## Renaming -/

/-- What the main block had is behind what the block of the id had. -/
theorem get?_renameMain_self (g : Graph) {id : String} (hid : id ≠ main) :
    (g.renameMain id).get? id = some (g.block id ++ g.block main) := by
  rw [get?_renameMain, if_pos rfl, if_neg hid.symm]

/-- Renaming before merging is renaming after it exactly if the main block of the first graph and
    the block that the second one has under the id may change places. -/
theorem renameMain_merge_iff {g h : Graph} {id : String} (hid : id ≠ main) :
    (g.merge h).renameMain id = (g.renameMain id).merge (h.renameMain id) ↔
      g.block main ++ h.block id = h.block id ++ g.block main := by
  have hafter : ((g.merge h).renameMain id).get? id =
      some (g.block id ++ (h.block id ++ g.block main ++ h.block main)) := by
    rw [get?_renameMain_self _ hid, block_merge, block_merge]
    simp only [List.append_assoc]
  have hbefore : ((g.renameMain id).merge (h.renameMain id)).get? id =
      some (g.block id ++ (g.block main ++ h.block id ++ h.block main)) := by
    rw [get?_merge_eq, get?_renameMain_self _ hid, get?_renameMain_self _ hid, Option.merge]
    simp only [List.append_assoc]
  constructor
  · intro heq
    rw [heq, hbefore, Option.some.injEq] at hafter
    exact List.append_cancel_right (List.append_cancel_left hafter)
  · intro hswap
    refine Catalog.ext_get? fun x => ?_
    by_cases hx : id = x
    · subst hx
      rw [hafter, hbefore, hswap]
    · -- The other blocks stay as they are, but for the main block, which both lose.
      simp only [get?_merge_eq, get?_renameMain, if_neg hx]
      split <;> rfl

/-- Merging is associative, and the graph without blocks is neutral on both sides. A block of a
    merge is that of the first graph followed by that of the second, there if either is, so a merge
    has the nodes of both, each as often as there. Under an id that neither graph has, the main
    blocks can be renamed before merging or after it. -/
theorem merge_laws (g h k : Graph) :
    (g.merge h).merge k = g.merge (h.merge k) ∧
    merge ∅ g = g ∧ g.merge ∅ = g ∧
    (∀ x, (g.merge h).get? x = Option.merge (· ++ ·) (g.get? x) (h.get? x)) ∧
    (∀ x, (g.merge h).contains x ↔ g.contains x ∨ h.contains x) ∧
    (g.merge h).nodes.Perm (g.nodes ++ h.nodes) ∧
    ∀ id, id ≠ main → g.contains id = false → h.contains id = false →
      (g.merge h).renameMain id = (g.renameMain id).merge (h.renameMain id) := by
  refine ⟨merge_assoc g h k, empty_merge g, merge_empty g, get?_merge_eq g h, contains_merge g h,
    nodes_merge g h, fun id hid _ hnew => ?_⟩
  -- Whether the first graph has the id as well does not matter: what it has there stays in front.
  have hnone : h.block id = [] := by
    rw [block, Catalog.get?_eq_none_of_contains hnew]
    rfl
  rw [renameMain_merge_iff hid, hnone, List.append_nil, List.nil_append]

/-- A graph with a main block and another one. -/
def yard : Graph := ofBlocks [(main, [.wait]), ("shed", [.leave])]

/-- A graph without a main block. One of its blocks is empty. -/
def hall : Graph := ofBlocks [("shed", [.choose]), ("stairs", [])]

/-- Two graphs are renamed before or after they are merged. -/
theorem merge_laws_yard :
    "start" ≠ main ∧ yard.contains "start" = false ∧ hall.contains "start" = false ∧
      (yard.merge hall).renameMain "start" =
        (yard.renameMain "start").merge (hall.renameMain "start") :=
  have hid : "start" ≠ main := by decide
  have hyard : yard.contains "start" = false := by decide
  have hhall : hall.contains "start" = false := by decide
  ⟨hid, hyard, hhall, (merge_laws yard hall ∅).2.2.2.2.2.2 "start" hid hyard hhall⟩

end Graph

/-! ## Outlines in one go -/

namespace Outline

/-- The graph of the nodes of a level. Without nodes there is no main block. -/
def levelGraph (o : Outline) : Graph := if o.level = [] then ∅ else Graph.ofMain o.level

/-- The passages right below the labels and options of a level, with the ids of their blocks. -/
def passages : Outline → List (String × Outline)
  | nil => []
  | node _ rest => rest.passages
  | label id body rest => (id, body) :: rest.passages
  | option id _ body rest => (id, body) :: rest.passages

/-- The graph of a passage under its id. -/
def passageGraph (p : String × Outline) : Graph := p.2.graph.renameMain p.1

/-- A node is put before a level. -/
theorem ofMain_merge_levelGraph (n : Node) (o : Outline) :
    (Graph.ofMain [n]).merge o.levelGraph = Graph.ofMain (n :: o.level) := by
  rw [levelGraph]
  split
  · rename_i hlevel
    rw [Graph.merge_empty, hlevel]
  · exact Graph.ofMain_merge [n] o.level

/-- A level has the main block only. -/
theorem contains_levelGraph (o : Outline) {x : String} (hx : x ≠ Graph.main) :
    o.levelGraph.contains x = false := by
  rw [levelGraph]
  split
  · rfl
  · rw [Catalog.contains, Graph.get?_ofMain, if_neg hx.symm]
    rfl

/-- Under its id a passage has no main block, so it does not matter whether it is merged before the
    nodes of the level or behind them. -/
theorem passageGraph_merge_levelGraph {p : String × Outline} (hp : p.1 ≠ Graph.main) (o : Outline) :
    (passageGraph p).merge o.levelGraph = o.levelGraph.merge (passageGraph p) := by
  refine Graph.merge_comm fun x hx => o.contains_levelGraph ?_
  rintro rfl
  rw [passageGraph, Catalog.contains, get?_renameMain_main hp] at hx
  cases hx

/-- A list of graphs is the first one merged with the others. -/
theorem foldl_merge_cons (g : Graph) (gs : List Graph) :
    (g :: gs).foldl Graph.merge ∅ = g.merge (gs.foldl Graph.merge ∅) := by
  have hassoc : gs.foldl Graph.merge (g.merge ∅) = g.merge (gs.foldl Graph.merge ∅) :=
    List.foldl_assoc
  rw [List.foldl_cons, Graph.empty_merge, ← hassoc, Graph.merge_empty]

/-- The passages below a level can be merged with each other first, and all of them then with the
    level. -/
theorem graph_eq_merge {o : Outline} (h : ∀ p ∈ o.passages, p.1 ≠ Graph.main) :
    o.graph = o.levelGraph.merge ((o.passages.map passageGraph).foldl Graph.merge ∅) := by
  induction o with
  | nil => rfl
  | node n rest ih =>
    rw [graph_node, ih h, ← Graph.merge_assoc, ofMain_merge_levelGraph]
    rfl
  | label id body rest _ ih =>
    obtain ⟨hid, hrest⟩ := List.forall_mem_cons.1 h
    rw [graph_label, ih hrest, passages, List.map_cons, foldl_merge_cons, ← Graph.merge_assoc,
      ← Graph.merge_assoc]
    exact congrArg (Graph.merge · _) (passageGraph_merge_levelGraph hid rest)
  | option id prompt body rest _ ih =>
    obtain ⟨hid, hrest⟩ := List.forall_mem_cons.1 h
    -- The body changes places with the level behind it, and so the offer comes to that level.
    have hbody : (body.graph.renameMain id).merge rest.levelGraph =
        rest.levelGraph.merge (passageGraph (id, body)) := passageGraph_merge_levelGraph hid rest
    rw [graph_option, ih hrest, passages, List.map_cons, foldl_merge_cons,
      ← Graph.merge_assoc (body.graph.renameMain id), hbody, Graph.merge_assoc,
      ← Graph.merge_assoc, ofMain_merge_levelGraph]
    rfl

end Outline

end Dialogue
