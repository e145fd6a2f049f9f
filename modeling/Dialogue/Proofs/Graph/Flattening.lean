import Dialogue.Proofs.Compile.Agreement

/-!
# Flattening

The graph of an outline is put together by moving: the bodies are compiled on their own,
renamed and merged, and merging joins the blocks of one id. What should come out can be
said without moving anything. The *level* of an outline are its own nodes, where an option
stands for an offer and a label for nothing. The blocks are then the level of the outline,
unless it is empty, and the level of every body below, however deep, under the id of the
body.

* `Outline.addTo_eq_merge`: adding an outline to a graph is merging its graph, so a graph
  is put together line by line (`Outline.graph_append`);
* `Outline.get?_graph`: with distinct ids nothing is joined, and the graph has exactly the
  blocks of the outline;
* `Script.graph_flattens`: in every source that can be read the ids are distinct, and none
  is the id of the main block.
-/

namespace Dialogue

/-! ## Merging -/

namespace Graph

/-- A graph without blocks adds nothing. -/
@[simp] theorem merge_empty (g : Graph) : g.merge ∅ = g := rfl

/-- A graph without blocks has no nodes in any block. -/
@[simp] theorem block_empty (id : String) : block ∅ id = [] := rfl

/-- A block of a merge is that of the one graph and then that of the other. -/
theorem block_merge (g h : Graph) (x : String) :
    (g.merge h).block x = g.block x ++ h.block x := by
  rw [block, get?_merge, block, block]
  cases h.get? x with
  | none => rw [Option.getD_none, List.append_nil]
  | some nodes => rfl

/-- Nothing is added to a graph without blocks but the graph. -/
@[simp] theorem empty_merge (g : Graph) : merge ∅ g = g := by
  refine Catalog.ext_get? fun x => ?_
  rw [get?_merge]
  cases g.get? x <;> rfl

/-- Merges may be grouped in any way. -/
theorem merge_assoc (g h k : Graph) : (g.merge h).merge k = g.merge (h.merge k) := by
  refine Catalog.ext_get? fun x => ?_
  rw [get?_merge, get?_merge, get?_merge, get?_merge, block_merge]
  cases hk : k.get? x with
  | none => rfl
  | some nodes => simp only [List.append_assoc]

/-- Nodes are added to the main block by merging the graph that has nothing else. -/
theorem append_main (g : Graph) (nodes : List Node) :
    g.append main nodes = g.merge (ofMain nodes) := by
  refine Catalog.ext_get? fun x => ?_
  rw [get?_merge, ofMain, get?_append, get?_append]
  split
  · rename_i h
    rw [h]
    rfl
  · rfl

/-- A block that the second graph does not have is the first graph's. -/
theorem get?_merge_left {g h : Graph} {x : String} (hx : h.get? x = none) :
    (g.merge h).get? x = g.get? x := by
  rw [get?_merge, hx]

/-- A block that the first graph does not have is the second graph's. -/
theorem get?_merge_right {g h : Graph} {x : String} (hx : g.get? x = none) :
    (g.merge h).get? x = h.get? x := by
  rw [get?_merge, block, hx]
  cases h.get? x <;> rfl

/-- A graph of main nodes has the main block only. -/
theorem get?_ofMain (nodes : List Node) (x : String) :
    (ofMain nodes).get? x = if main = x then some nodes else none :=
  get?_append ∅ main nodes x

end Graph

namespace Outline

/-! ## The graph, line by line -/

/-- Adding an outline is merging its graph. -/
theorem addTo_eq_merge (o : Outline) (g : Graph) : o.addTo g = g.merge o.graph := by
  induction o generalizing g with
  | nil => rfl
  | node n rest ih =>
    rw [graph, addTo, addTo, ih, ih (Graph.append ..), Graph.append_main, Graph.append_main,
      Graph.empty_merge, Graph.merge_assoc]
  | label id body rest _ ih =>
    rw [graph, addTo, addTo, ih, ih (Graph.merge ..), Graph.empty_merge, Graph.merge_assoc]
  | option id prompt body rest _ ih =>
    rw [graph, addTo, addTo, ih, ih (Graph.merge ..), Graph.append_main, Graph.append_main,
      Graph.empty_merge, Graph.merge_assoc, Graph.merge_assoc, Graph.merge_assoc]

/-- A node is put before the main nodes behind it. -/
theorem graph_node (n : Node) (rest : Outline) :
    (node n rest).graph = (Graph.ofMain [n]).merge rest.graph :=
  addTo_eq_merge rest _

/-- The body of a label is merged under its id. -/
theorem graph_label (id : String) (body rest : Outline) :
    (label id body rest).graph = (body.graph.renameMain id).merge rest.graph := by
  rw [graph, addTo, addTo_eq_merge, Graph.empty_merge, ← graph]

/-- The body of an option is merged under its id, behind its offer. -/
theorem graph_option (id : String) (prompt : Expr .text) (body rest : Outline) :
    (option id prompt body rest).graph =
      (Graph.ofMain [.offer id prompt]).merge ((body.graph.renameMain id).merge rest.graph) := by
  rw [graph, addTo, addTo_eq_merge, Graph.merge_assoc, ← graph, Graph.ofMain]

/-- The graph of two outlines, one below the other, is the merge of their graphs. -/
theorem graph_append (o p : Outline) : (o ++ p).graph = o.graph.merge p.graph := by
  change (o.append p).graph = _
  induction o with
  | nil => exact (Graph.empty_merge _).symm
  | node n rest ih => rw [append, graph_node, graph_node, ih, Graph.merge_assoc]
  | label id body rest _ ih => rw [append, graph_label, graph_label, ih, Graph.merge_assoc]
  | option id prompt body rest _ ih =>
    rw [append, graph_option, graph_option, ih, Graph.merge_assoc, Graph.merge_assoc]

/-! ## The blocks of an outline -/

/-- The nodes of the level of an outline, from top to bottom. Labels add nothing, and what
    is below a label or an option is not of this level. -/
def level : Outline → List Node
  | nil => []
  | node n rest => n :: rest.level
  | label _ _ rest => rest.level
  | option id prompt _ rest => .offer id prompt :: rest.level

/-- All that is below labels and options, at any depth, with the ids of the blocks. -/
def bodies : Outline → List (String × Outline)
  | nil => []
  | node _ rest => rest.bodies
  | label id body rest => (id, body) :: (body.bodies ++ rest.bodies)
  | option id _ body rest => (id, body) :: (body.bodies ++ rest.bodies)

/-- The blocks of an outline: its level, if that has nodes, and the level of every body. -/
def blocks (o : Outline) : List (String × List Node) :=
  (if o.level = [] then [] else [(Graph.main, o.level)]) ++
    o.bodies.map fun b => (b.1, b.2.level)

/-- The ids of the bodies are those that the log has. -/
theorem map_fst_bodies (o : Outline) : o.bodies.map (·.1) = o.log.ids := by
  induction o with
  | nil => rfl
  | node n rest ih => exact ih
  | label id body rest ihBody ih => simp [bodies, log, Log.ofId, ihBody, ih]
  | option id prompt body rest ihBody ih =>
    simp [bodies, log, Log.ofId, Expr.log, ihBody, ih]

/-- The id of a body is in the log. -/
theorem mem_ids_of_mem_bodies {o : Outline} {b : String × Outline} (h : b ∈ o.bodies) :
    b.1 ∈ o.log.ids :=
  o.map_fst_bodies ▸ List.mem_map_of_mem h

/-- The ids of an outline can be those of blocks: they are distinct, and none is the id of
    the main block. -/
structure Named (o : Outline) : Prop where
  /-- No id comes twice. -/
  distinct : o.log.ids.Nodup
  /-- The main block has its own. -/
  ne_main : ∀ id ∈ o.log.ids, id ≠ Graph.main

/-- A body and what follows it: the id of the body is not the one of the main block, and
    the ids of the two are apart from it and from each other. -/
structure Apart (id : String) (body rest : Outline) : Prop where
  /-- The main block is another one. -/
  ne_main : id ≠ Graph.main
  /-- The ids below. -/
  named_body : body.Named
  /-- The ids after it. -/
  named_rest : rest.Named
  /-- The id does not come again below. -/
  not_mem_body : id ∉ body.log.ids
  /-- It does not come again after that. -/
  not_mem_rest : id ∉ rest.log.ids
  /-- No id below comes again after that. -/
  disjoint : ∀ x ∈ body.log.ids, x ∉ rest.log.ids

/-- Distinct ids keep a body apart from the rest. -/
theorem Named.apart {o body rest : Outline} {id : String} (h : o.Named)
    (hids : o.log.ids = id :: (body.log.ids ++ rest.log.ids)) : Apart id body rest := by
  obtain ⟨hdistinct, hmain⟩ := h
  rw [hids] at hdistinct hmain
  obtain ⟨hid, happend⟩ := List.nodup_cons.1 hdistinct
  obtain ⟨hbody, hrest, hne⟩ := List.nodup_append.1 happend
  exact {
    ne_main := hmain id List.mem_cons_self
    named_body := ⟨hbody, fun x hx => hmain x (List.mem_cons_of_mem _ (List.mem_append_left _ hx))⟩
    named_rest := ⟨hrest, fun x hx => hmain x (List.mem_cons_of_mem _ (List.mem_append_right _ hx))⟩
    not_mem_body := fun h => hid (List.mem_append_left _ h)
    not_mem_rest := fun h => hid (List.mem_append_right _ h)
    disjoint := fun x hx hx' => hne x hx x hx' rfl }

/-- An id that the outline does not have is none of its graph. -/
theorem get?_graph_eq_none {o : Outline} {x : String} (hx : x ∉ o.log.ids)
    (hmain : x ≠ Graph.main) : o.graph.get? x = none := by
  rw [← Option.not_isSome_iff_eq_none]
  exact fun h => hx ((o.contains_graph hmain).1 h)

/-- A node in front of an outline is the first of the main block. -/
theorem get?_main_cons {n : Node} {g : Graph} {nodes : List Node}
    (h : g.get? Graph.main = if nodes = [] then none else some nodes) :
    ((Graph.ofMain [n]).merge g).get? Graph.main = some (n :: nodes) := by
  rw [Graph.get?_merge, h, Graph.get?_ofMain, if_pos rfl]
  by_cases hnodes : nodes = []
  · rw [if_pos hnodes, hnodes]
  · rw [if_neg hnodes]
    rfl

/-- The nodes of a body have moved to the block of its id. -/
theorem get?_renameMain_main {g : Graph} {id : String} (hid : id ≠ Graph.main) :
    (g.renameMain id).get? Graph.main = none := by
  rw [Graph.get?_renameMain, if_neg hid, if_pos rfl]

/-- The main block is the level of the outline. It is there if the level has a node. -/
theorem get?_graph_main {o : Outline} (h : o.Named) :
    o.graph.get? Graph.main = if o.level = [] then none else some o.level := by
  induction o with
  | nil => rfl
  | node n rest ih =>
    rw [graph_node, get?_main_cons (ih ⟨h.distinct, h.ne_main⟩), level, if_neg (by simp)]
  | label id body rest _ ih =>
    have hapart : Apart id body rest := h.apart rfl
    rw [graph_label, Graph.get?_merge_right (get?_renameMain_main hapart.ne_main),
      ih hapart.named_rest, level]
  | option id prompt body rest _ ih =>
    have hapart : Apart id body rest := h.apart rfl
    have hmain : ((body.graph.renameMain id).merge rest.graph).get? Graph.main =
        if rest.level = [] then none else some rest.level :=
      (Graph.get?_merge_right (get?_renameMain_main hapart.ne_main)).trans (ih hapart.named_rest)
    rw [graph_option, get?_main_cons hmain, level, if_neg (by simp)]

/-- The main block is the level of the outline. -/
theorem block_graph_main {o : Outline} (h : o.Named) : o.graph.block Graph.main = o.level := by
  rw [Graph.block, get?_graph_main h]
  split
  · rename_i hlevel
    exact hlevel.symm
  · rfl

/-- The block of the id of a body is the level of the body. -/
theorem get?_renameMain_graph {id : String} {body rest : Outline} (h : Apart id body rest) :
    (body.graph.renameMain id).get? id = some body.level := by
  rw [Graph.get?_renameMain, if_pos rfl, if_neg h.ne_main.symm, block_graph_main h.named_body,
    Graph.block, get?_graph_eq_none h.not_mem_body h.ne_main]
  rfl

/-- The blocks that a body adds to a graph are those that it has on its own, and nothing is
    joined with what follows. -/
theorem get?_passage {id : String} {body rest : Outline} (h : Apart id body rest)
    (hbody : ∀ b ∈ body.bodies, body.graph.get? b.1 = some b.2.level)
    (hrest : ∀ b ∈ rest.bodies, rest.graph.get? b.1 = some b.2.level) :
    ∀ b ∈ (id, body) :: (body.bodies ++ rest.bodies),
      ((body.graph.renameMain id).merge rest.graph).get? b.1 = some b.2.level := by
  intro b hb
  rcases List.mem_cons.1 hb with rfl | hb
  · rw [Graph.get?_merge_left (get?_graph_eq_none h.not_mem_rest h.ne_main)]
    exact get?_renameMain_graph h
  rcases List.mem_append.1 hb with hb | hb
  · have hids : b.1 ∈ body.log.ids := mem_ids_of_mem_bodies hb
    have hmain : b.1 ≠ Graph.main := h.named_body.ne_main _ hids
    have hne : id ≠ b.1 := fun hid => h.not_mem_body (hid ▸ hids)
    rw [Graph.get?_merge_left (get?_graph_eq_none (h.disjoint _ hids) hmain),
      Graph.get?_renameMain, if_neg hne, if_neg hmain.symm, hbody b hb]
  · have hids : b.1 ∈ rest.log.ids := mem_ids_of_mem_bodies hb
    have hmain : b.1 ≠ Graph.main := h.named_rest.ne_main _ hids
    have hne : id ≠ b.1 := fun hid => h.not_mem_rest (hid ▸ hids)
    have hnone : (body.graph.renameMain id).get? b.1 = none := by
      rw [Graph.get?_renameMain, if_neg hne, if_neg hmain.symm]
      exact get?_graph_eq_none (fun hmem => h.disjoint _ hmem hids) hmain
    rw [Graph.get?_merge_right hnone, hrest b hb]

/-- The block of a body is its level. -/
theorem get?_graph_body {o : Outline} (h : o.Named) :
    ∀ b ∈ o.bodies, o.graph.get? b.1 = some b.2.level := by
  induction o with
  | nil => nofun
  | node n rest ih =>
    intro b hb
    have hids : b.1 ∈ rest.log.ids := mem_ids_of_mem_bodies hb
    have hmain : b.1 ≠ Graph.main := h.ne_main _ hids
    rw [graph_node, Graph.get?_merge_right (by rw [Graph.get?_ofMain, if_neg hmain.symm])]
    exact ih ⟨h.distinct, h.ne_main⟩ b hb
  | label id body rest ihBody ih =>
    have hapart : Apart id body rest := h.apart rfl
    rw [graph_label]
    exact get?_passage hapart (ihBody hapart.named_body) (ih hapart.named_rest)
  | option id prompt body rest ihBody ih =>
    have hapart : Apart id body rest := h.apart rfl
    intro b hb
    have hids : b.1 ∈ (option id prompt body rest).log.ids := mem_ids_of_mem_bodies hb
    have hmain : b.1 ≠ Graph.main := h.ne_main _ hids
    rw [graph_option, Graph.get?_merge_right (by rw [Graph.get?_ofMain, if_neg hmain.symm])]
    exact get?_passage hapart (ihBody hapart.named_body) (ih hapart.named_rest) b hb

/-! ## The graph is what it should be -/

/-- The blocks of a graph are those of the outline. -/
theorem get?_graph {o : Outline} (h : o.Named) {id : String} {nodes : List Node} :
    o.graph.get? id = some nodes ↔ (id, nodes) ∈ o.blocks := by
  by_cases hmain : id = Graph.main
  · subst hmain
    have hbodies : (Graph.main, nodes) ∉ o.bodies.map fun b => (b.1, b.2.level) := by
      intro hmem
      obtain ⟨b, hb, heq⟩ := List.mem_map.1 hmem
      exact h.ne_main b.1 (mem_ids_of_mem_bodies hb) (congrArg (·.1) heq)
    rw [get?_graph_main h, blocks, List.mem_append, or_iff_left hbodies]
    split <;> simp [eq_comm]
  · constructor
    · intro hget
      have hids : id ∈ o.log.ids :=
        (o.contains_graph hmain).1 (by rw [Catalog.contains, hget]; rfl)
      obtain ⟨b, hb, rfl⟩ := List.mem_map.1 (o.map_fst_bodies ▸ hids)
      rw [get?_graph_body h b hb] at hget
      refine List.mem_append_right _ (List.mem_map.2 ⟨b, hb, ?_⟩)
      rw [Option.some.inj hget]
    · intro hmem
      rcases List.mem_append.1 hmem with hmem | hmem
      · split at hmem
        · cases hmem
        · cases List.mem_singleton.1 hmem
          exact absurd rfl hmain
      · obtain ⟨b, hb, heq⟩ := List.mem_map.1 hmem
        cases heq
        exact get?_graph_body h b hb

/-- Every block is there once. -/
theorem Named.nodup_blocks {o : Outline} (h : o.Named) : (o.blocks.map (·.1)).Nodup := by
  have hbodies : (o.bodies.map fun b => (b.1, b.2.level)).map (·.1) = o.log.ids := by
    rw [List.map_map, ← o.map_fst_bodies]
    rfl
  rw [blocks, List.map_append, hbodies]
  split
  · exact h.distinct
  · exact List.nodup_cons.2 ⟨fun hmem => h.ne_main _ hmem rfl, h.distinct⟩

/-- The graph of an outline has the blocks of the outline and no others. -/
theorem entries_graph {o : Outline} (h : o.Named) : o.graph.entries.Perm o.blocks := by
  have hentries : o.graph.entries.Nodup := by
    refine o.graph.sorted.imp fun {a b} hlt heq => ?_
    exact String.ne_of_lt hlt (congrArg (·.1) heq)
  have hblocks : o.blocks.Nodup :=
    List.Pairwise.of_map _ (fun _ _ hne heq => hne (heq ▸ rfl)) h.nodup_blocks
  refine (List.perm_ext_iff_of_nodup hentries hblocks).2 ?_
  rintro ⟨id, nodes⟩
  rw [← get?_graph h, Catalog.get?_eq_some_iff_mem]

end Outline

variable {options : Options} {registry : Grammar.Registry}

/-- In a source that can be read all ids are distinct, and none is that of the main block. -/
theorem Script.named {source : List Char} {script : Script}
    (h : Script.read options registry source = .ok script) : script.outline.Named :=
  ⟨(Script.facts_match h).distinct, fun _ hid hmain => (Script.facts_match h).named (hmain ▸ hid)⟩

/-- The graph of a source has a block for the level of its outline, unless there is no node
    on that level, and a block for every body, under the id of the body. Each block is a level
    of the outline, with its nodes in order, and there are no others. -/
theorem Script.graph_flattens {source : String} {script : Script}
    (h : Script.read options registry source.toList = .ok script) :
    (script.outline.bodies.map (·.1)).Nodup ∧
      (∀ b ∈ script.outline.bodies, b.1 ≠ Graph.main) ∧
      (script.outline.graph.get? Graph.main =
        if script.outline.level = [] then none else some script.outline.level) ∧
      (∀ b ∈ script.outline.bodies, script.outline.graph.get? b.1 = some b.2.level) ∧
      script.outline.graph.entries.Perm script.outline.blocks ∧
      ∀ graph, compile options registry source = .ok graph → graph = script.outline.graph := by
  have hnamed := Script.named h
  refine ⟨script.outline.map_fst_bodies ▸ hnamed.distinct,
    fun b hb => hnamed.ne_main _ (Outline.mem_ids_of_mem_bodies hb), Outline.get?_graph_main hnamed,
    Outline.get?_graph_body hnamed, Outline.entries_graph hnamed, fun graph hgraph => ?_⟩
  obtain ⟨script', _, hread, -, -, rfl⟩ := compile_eq_ok hgraph
  cases h.symm.trans hread
  rfl

/-- A label with nothing but a label below it, and an option. -/
def nested : String :=
  "label [a]\n  label [b]\n    : Hi\n    wait\n: Bye\nchoice\n  > Go\n    jump b\n"

/-- The label below a label and the option have blocks of their own. -/
theorem Script.graph_flattens_nested :
    ∃ script, Script.read {} sampleBindings.signature? nested.toList = .ok script ∧
      script.outline.bodies.map (fun b => (b.1, b.2.level.length)) =
        [("a", 0), ("b", 2), (Grammar.promptId "Go", 1)] ∧
      script.outline.level.length = 2 ∧
      (script.outline.bodies.map (·.1)).Nodup ∧
      (∀ b ∈ script.outline.bodies, script.outline.graph.get? b.1 = some b.2.level) ∧
      script.outline.graph.entries.Perm script.outline.blocks := by
  have hblocks : (Script.read {} sampleBindings.signature? nested.toList).toOption.map
      (fun script => (script.outline.bodies.map fun b => (b.1, b.2.level.length),
        script.outline.level.length)) =
        some ([("a", 0), ("b", 2), (Grammar.promptId "Go", 1)], 2) := by
    decide +kernel
  obtain ⟨script, hread, hblocks⟩ := Option.map_eq_some_iff.1 hblocks
  have hread := eq_ok_of_toOption hread
  obtain ⟨hdistinct, -, -, hbodies, hentries, -⟩ := Script.graph_flattens hread
  have hblocks := Prod.mk.inj hblocks
  exact ⟨script, hread, hblocks.1, hblocks.2, hdistinct, hbodies,
    hentries⟩

end Dialogue
