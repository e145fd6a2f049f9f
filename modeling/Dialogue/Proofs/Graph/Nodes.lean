import Dialogue.Proofs.Compile.Log

/-!
# The nodes of a graph

The graph of an outline moves every node to its block: bodies are compiled on their own,
renamed and merged, and blocks of one id are joined. Whatever is moved where, the graph
has the nodes of the outline, each as often as there (`Outline.nodes_graph`), and the
blocks other than the main one are those that the outline has ids for
(`Outline.contains_graph`).

Permutations suffice, since nothing here depends on the place of a node in its block.
-/

namespace Dialogue

/-! ## Nodes and ids of graphs -/

namespace Graph

/-- The nodes of all blocks. -/
def nodes (g : Graph) : List Node := g.entries.flatMap (·.2)

/-- The uses of variables in all expressions. -/
def uses (g : Graph) : List Use := g.nodes.flatMap fun n => n.mentions.filterMap Mention.use?

/-- The variables of all expressions. -/
def variableNames (g : Graph) : List String :=
  g.nodes.flatMap fun n => n.mentions.flatMap Mention.variableNames

/-- The blocks that jumps lead to. -/
def jumps (g : Graph) : List String := g.nodes.filterMap Node.jump?

/-- The nodes of a graph are those of its blocks. -/
theorem mem_nodes {g : Graph} {n : Node} :
    n ∈ g.nodes ↔ ∃ id nodes, g.get? id = some nodes ∧ n ∈ nodes := by
  simp only [nodes, List.mem_flatMap, Catalog.get?_eq_some_iff_mem, Prod.exists]

/-- A node of a block is a node of the graph. -/
theorem mem_nodes_of_block {g : Graph} {id : String} {n : Node} (h : n ∈ g.block id) :
    n ∈ g.nodes := by
  rw [block] at h
  rcases hblock : g.get? id with _ | nodes
  · rw [hblock] at h
    cases h
  · rw [hblock] at h
    exact mem_nodes.2 ⟨id, nodes, hblock, h⟩

/-- What was added to a block is somewhere among the nodes. -/
theorem nodes_append (g : Graph) (id : String) (ns : List Node) :
    (g.append id ns).nodes.Perm (g.nodes ++ ns) := by
  obtain ⟨l, hl⟩ := g
  change ((Catalog.put id ((Catalog.find? id l).getD [] ++ ns) l).flatMap (·.2)).Perm
    (l.flatMap (·.2) ++ ns)
  induction l with
  | nil => exact .of_eq (List.append_nil ns)
  | cons p l ih =>
    obtain ⟨m, ms⟩ := p
    obtain ⟨hm, hl⟩ := List.pairwise_cons.1 hl
    rw [Catalog.put]
    split
    · rename_i hlt
      -- The block is new, and it comes first.
      have hnone : Catalog.find? id ((m, ms) :: l) = none := by
        refine Catalog.find?_eq_none_of_lt fun q hq => ?_
        rcases List.mem_cons.1 hq with rfl | hq
        · exact hlt
        · exact String.lt_trans hlt (hm q hq)
      rw [hnone, Option.getD_none, List.nil_append, List.flatMap_cons]
      exact List.perm_append_comm
    · split
      · rename_i heq
        subst heq
        rw [Catalog.find?, if_pos rfl, Option.getD_some, List.flatMap_cons, List.flatMap_cons,
          List.append_assoc, List.append_assoc]
        exact .append_left _ List.perm_append_comm
      · rename_i hne
        rw [Catalog.find?, if_neg (Ne.symm hne), List.flatMap_cons, List.flatMap_cons,
          List.append_assoc]
        exact .append_left _ (ih hl)

/-- Appending blocks adds their nodes. -/
theorem nodes_foldl_append (blocks : List (String × List Node)) (g : Graph) :
    (blocks.foldl (fun g b => g.append b.1 b.2) g).nodes.Perm
      (g.nodes ++ blocks.flatMap (·.2)) := by
  induction blocks generalizing g with
  | nil => exact .of_eq (List.append_nil _).symm
  | cons b blocks ih =>
    refine (ih _).trans ?_
    rw [List.flatMap_cons, ← List.append_assoc]
    exact .append_right _ (nodes_append g b.1 b.2)

/-- Merging adds the nodes of the other graph. -/
theorem nodes_merge (g h : Graph) : (g.merge h).nodes.Perm (g.nodes ++ h.nodes) :=
  nodes_foldl_append h.entries g

/-- Erasing a block takes its nodes out. -/
theorem nodes_erase (g : Graph) (id : String) :
    (nodes (g.erase id) ++ g.block id).Perm g.nodes := by
  obtain ⟨l, hl⟩ := g
  change ((l.filter (·.1 ≠ id)).flatMap (·.2) ++ (Catalog.find? id l).getD []).Perm
    (l.flatMap (·.2))
  induction l with
  | nil => exact .nil
  | cons p l ih =>
    obtain ⟨m, ms⟩ := p
    obtain ⟨hm, hl⟩ := List.pairwise_cons.1 hl
    by_cases hid : m = id
    · subst hid
      -- No other block has the id.
      have hrest : l.filter (·.1 ≠ m) = l :=
        List.filter_eq_self.2 fun q hq => decide_eq_true (String.ne_of_lt (hm q hq)).symm
      rw [List.filter_cons_of_neg (by simp), hrest, Catalog.find?, if_pos rfl,
        Option.getD_some, List.flatMap_cons]
      exact List.perm_append_comm
    · rw [List.filter_cons_of_pos (by simpa using hid), Catalog.find?, if_neg hid,
        List.flatMap_cons, List.flatMap_cons, List.append_assoc]
      exact .append_left _ (ih hl)

/-- Renaming moves nodes and loses none. -/
theorem nodes_renameMain (g : Graph) (id : String) : (g.renameMain id).nodes.Perm g.nodes :=
  (nodes_append _ id _).trans (nodes_erase g main)

/-- A graph in which every node leads to a block that is there has no problems. -/
theorem problems_eq_nil {g : Graph}
    (h : ∀ n ∈ g.nodes, ∀ id, n.target? = some id → g.contains id) : g.problems = [] := by
  rw [problems, List.flatMap_eq_nil_iff]
  rintro ⟨id, nodes⟩ hblock
  rw [List.filterMap_eq_nil_iff]
  rintro ⟨n, index⟩ hn
  have hn : n ∈ g.nodes := List.mem_flatMap.2 ⟨_, hblock, List.fst_mem_of_mem_zipIdx hn⟩
  dsimp only
  cases ht : n.target? with
  | none => rfl
  | some target => rw [Option.bind_some, if_pos (h n hn target ht)]

/-- In a graph without problems every node leads to a block that is there. -/
theorem contains_of_problems_eq_nil {g : Graph} (h : g.problems = []) {n : Node}
    (hn : n ∈ g.nodes) {id : String} (hid : n.target? = some id) : g.contains id := by
  obtain ⟨⟨block, nodes⟩, hblock, hn⟩ := List.mem_flatMap.1 hn
  obtain ⟨index, hindex, rfl⟩ := List.mem_iff_getElem.1 hn
  have hproblem := List.filterMap_eq_nil_iff.1 (List.flatMap_eq_nil_iff.1 h _ hblock)
    (nodes[index], index) (List.mk_mem_zipIdx_iff_getElem?.2 (List.getElem?_eq_getElem hindex))
  cases hcontains : g.contains id with
  | true => rfl
  | false => simp [hid, hcontains] at hproblem

/-- Appending to a block makes it, if there was none. -/
theorem contains_append (g : Graph) (id x : String) (ns : List Node) :
    (g.append id ns).contains x ↔ x = id ∨ g.contains x := by
  rw [Catalog.contains, get?_append, eq_comm (a := x)]
  split
  · simp [*]
  · simp [*, Catalog.contains]

/-- A merge has the blocks of both graphs. -/
theorem contains_merge (g h : Graph) (x : String) :
    (g.merge h).contains x ↔ g.contains x ∨ h.contains x := by
  simp only [Catalog.contains, get?_merge]
  cases h.get? x <;> simp

/-- Renaming replaces the main block by one of the new id. -/
theorem contains_renameMain (g : Graph) (id x : String) :
    (g.renameMain id).contains x ↔ x = id ∨ x ≠ main ∧ g.contains x := by
  rw [Catalog.contains, get?_renameMain, eq_comm (a := x), ne_comm (a := x)]
  split
  · simp [*]
  · split
    · simp [*]
    · simp [*, Catalog.contains]

end Graph

/-! ## The nodes of an outline -/

namespace Outline

/-- The nodes of an outline: its lines, and an offer for each of its options. -/
def nodes : Outline → List Node
  | nil => []
  | node n rest => n :: rest.nodes
  | label _ body rest => body.nodes ++ rest.nodes
  | option id prompt body rest => .offer id prompt :: (body.nodes ++ rest.nodes)

/-- Adding an outline adds its nodes. -/
theorem nodes_addTo (o : Outline) (g : Graph) : (o.addTo g).nodes.Perm (g.nodes ++ o.nodes) := by
  induction o generalizing g with
  | nil => exact .of_eq (List.append_nil _).symm
  | node n rest ih =>
    refine (ih _).trans ?_
    rw [nodes, List.append_cons]
    exact .append_right _ (g.nodes_append Graph.main [n])
  | label id body rest ihBody ih =>
    refine (ih _).trans ?_
    rw [nodes, ← List.append_assoc]
    refine .append_right _ ((g.nodes_merge _).trans (.append_left _ ?_))
    exact (Graph.nodes_renameMain _ id).trans (ihBody ∅)
  | option id prompt body rest ihBody ih =>
    refine (ih _).trans ?_
    rw [nodes, List.append_cons, ← List.append_assoc]
    refine .append_right _ ((Graph.nodes_merge _ _).trans (.append ?_ ?_))
    · exact g.nodes_append Graph.main [.offer id prompt]
    · exact (Graph.nodes_renameMain _ id).trans (ihBody ∅)

/-- The graph of an outline has the nodes of the outline. -/
theorem nodes_graph (o : Outline) : o.graph.nodes.Perm o.nodes := o.nodes_addTo ∅

/-- Adding an outline adds the blocks that it has ids for. -/
theorem contains_addTo (o : Outline) (g : Graph) {x : String} (hx : x ≠ Graph.main) :
    (o.addTo g).contains x ↔ g.contains x ∨ x ∈ o.log.ids := by
  induction o generalizing g with
  | nil => simp [addTo, log, Log.empty]
  | node n rest ih => simp [addTo, log, Node.log, ih, Graph.contains_append, hx]
  | label id body rest ihBody ih =>
    rw [addTo, ih, Graph.contains_merge, Graph.contains_renameMain, ihBody, log, Log.ofId]
    simp [hx, or_assoc]
  | option id prompt body rest ihBody ih =>
    rw [addTo, ih, Graph.contains_merge, Graph.contains_append, Graph.contains_renameMain, ihBody,
      log, Log.ofId, Expr.log]
    simp [hx, or_assoc]

/-- Besides the main block, the graph of an outline has the blocks with its ids. -/
theorem contains_graph (o : Outline) {x : String} (hx : x ≠ Graph.main) :
    o.graph.contains x ↔ x ∈ o.log.ids := by
  rw [graph, contains_addTo o ∅ hx]
  simp [Catalog.contains]

/-! ## What the nodes of an outline say -/

/-- The nodes of an outline mention what is logged. -/
theorem mentions_nodes (o : Outline) : o.nodes.flatMap Node.mentions = o.log.mentions := by
  induction o with
  | nil => rfl
  | node n rest ih => rw [nodes, List.flatMap_cons, ih]; rfl
  | label id body rest ihBody ih => rw [nodes, List.flatMap_append, ihBody, ih]; rfl
  | option id prompt body rest ihBody ih =>
    rw [nodes, List.flatMap_cons, List.flatMap_append, ihBody, ih, ← List.append_assoc]
    rfl

/-- The jumps of an outline are those of its lines. -/
theorem jumps_nodes (o : Outline) :
    o.nodes.filterMap Node.jump? = o.log.lines.filterMap Node.jump? := by
  induction o with
  | nil => rfl
  | node n rest ih =>
    rw [nodes, log, Log.lines_append, List.filterMap_append, ← ih]
    exact List.filterMap_append (l := [n])
  | label id body rest ihBody ih =>
    rw [nodes, log, Log.lines_append, Log.lines_append, List.filterMap_append,
      List.filterMap_append, List.filterMap_append, ihBody, ih]
    rfl
  | option id prompt body rest ihBody ih =>
    rw [nodes, log, Log.lines_append, Log.lines_append, List.filterMap_cons_none rfl,
      List.filterMap_append, List.filterMap_append, List.filterMap_append, ihBody, ih]
    rfl

/-- A node of an outline is a line of it, or an offer of one of its blocks. -/
theorem mem_nodes {o : Outline} {n : Node} (h : n ∈ o.nodes) :
    n ∈ o.log.lines ∨ ∃ id prompt, n = .offer id prompt ∧ id ∈ o.log.ids := by
  induction o with
  | nil => cases h
  | node m rest ih =>
    rcases List.mem_cons.1 h with rfl | h
    · exact .inl List.mem_cons_self
    · refine (ih h).imp (List.mem_cons_of_mem _) ?_
      rintro ⟨id, prompt, rfl, hid⟩
      exact ⟨id, prompt, rfl, hid⟩
  | label id body rest ihBody ih =>
    simp only [log, Log.ofId, Log.ids_append, Log.lines_append, List.mem_append] at *
    grind [nodes]
  | option id prompt body rest ihBody ih =>
    simp only [log, Log.ofId, Log.ids_append, Log.lines_append, List.mem_append] at *
    grind [nodes]

end Outline
end Dialogue
