import Dialogue.Proofs.Grammar.Passage
import Dialogue.Proofs.Graph.Nodes
import Dialogue.Story

/-!
# The facts and the graph

The facts that are found in a source are those of its outline (`Script.facts_match`), and
its graph has the nodes and the ids of the outline. So the facts and the graph agree:

* `Script.facts_agree`: the uses of variables and the jumps that were noted are those of
  the graph, each as often as there, and the ids that were claimed are those of its
  blocks. Nothing of what was tried and given up is left, and nothing is missing;
* `compiled_accepted`: in a compiled graph every node leads to a block that is there. A
  jump does since it was noted and checked, and an offer since its option claimed the id.
-/

namespace Dialogue

/-! ## Results -/

section

variable {ε α β : Type} {x : Except ε α} {a : α}

/-- Two computations in a row succeed if both of them do. -/
theorem bind_eq_ok {f : α → Except ε β} {b : β} :
    x >>= f = .ok b ↔ ∃ a, x = .ok a ∧ f a = .ok b := by
  rcases x with e | a
  · exact ⟨nofun, fun ⟨_, h, _⟩ => nomatch h⟩
  · refine ⟨fun h => ⟨a, rfl, h⟩, ?_⟩
    rintro ⟨_, ⟨⟩, h⟩
    exact h

/-- A result that there is was a success. -/
theorem eq_ok_of_toOption (h : x.toOption = some a) : x = .ok a := by
  rcases x with e | a'
  · cases h
  · rw [Option.some.inj h]

end

/-! ## Facts -/

variable {options : Options} {registry : Grammar.Registry} {f : Facts} {o : Outline}

namespace Facts.Match

/-- The uses of variables that are noted are those of the graph. -/
theorem uses_perm (h : f.Match registry o.log) :
    (f.uses.map (·.item)).Perm o.graph.uses := by
  rw [h.uses, ← o.mentions_nodes, List.filterMap_flatMap]
  exact o.nodes_graph.symm.flatMap_right _

/-- The jumps that are noted are those of the graph. -/
theorem jumps_perm (h : f.Match registry o.log) :
    (f.jumps.map (·.item)).Perm o.graph.jumps := by
  rw [h.jumps, ← o.jumps_nodes]
  exact o.nodes_graph.symm.filterMap _

/-- The ids that are claimed are those of the blocks of the graph, but for the main one. -/
theorem declared_iff (h : f.Match registry o.log) (id : String) :
    id ∈ f.declared.map (·.item) ↔ o.graph.contains id ∧ id ≠ Graph.main := by
  rw [h.declared.mem_iff]
  constructor
  · intro hid
    have hmain : id ≠ Graph.main := fun hm => h.named (hm ▸ hid)
    exact ⟨(o.contains_graph hmain).2 hid, hmain⟩
  · rintro ⟨hid, hmain⟩
    exact (o.contains_graph hmain).1 hid

/-- A node leads to a block that a jump was noted for, or to a block of an option. -/
theorem target_mem (h : f.Match registry o.log) {n : Node} {id : String} (hn : n ∈ o.graph.nodes)
    (hid : n.target? = some id) : id ∈ f.jumps.map (·.item) ∨ id ∈ o.log.ids := by
  rcases Outline.mem_nodes (o.nodes_graph.mem_iff.1 hn) with hn | ⟨id', prompt, rfl, hid'⟩
  · rw [h.plain n hn] at hid
    rw [h.jumps]
    exact .inl (List.mem_filterMap.2 ⟨n, hn, hid⟩)
  · cases hid
    exact .inr hid'

/-- With all jumps resolved, every node leads to a block of the graph. -/
theorem target_contained (h : f.Match registry o.log) (hjumps : f.unresolved o.graph = [])
    {n : Node} (hn : n ∈ o.graph.nodes) {id : String} (hid : n.target? = some id) :
    o.graph.contains id := by
  rcases h.target_mem hn hid with hjump | hoffer
  · obtain ⟨j, hj, rfl⟩ := List.mem_map.1 hjump
    simpa using List.filter_eq_nil_iff.1 hjumps j hj
  · have hmain : id ≠ Graph.main := fun hm => h.named (hm ▸ hoffer)
    exact (o.contains_graph hmain).2 hoffer

end Facts.Match

/-! ## A sample -/

/-- A binding that returns its argument. -/
def sampleBindings : Bindings :=
  .ofList [("f", {
    signature := ⟨[.number], .number⟩
    run := fun
      | [.number x] => .number x
      | _ => .number 0 })]

/-- A script with a label, a jump, a choice and a call. -/
def sample : String :=
  "label [a]\n  : Hi \x7bx + 1\x7d, \x7bname\x7d\n  jump a\n" ++
    "choice\n  > Go \x7bb is c\x7d\n    pause f(x) s\n"

/-! ## Agreement -/

/-- What the compiler notes while it reads a source is what the graph says. -/
theorem Script.facts_agree {source : List Char} {script : Script}
    (h : Script.read options registry source = .ok script) :
    (script.facts.uses.map (·.item)).Perm script.outline.graph.uses ∧
      (script.facts.jumps.map (·.item)).Perm script.outline.graph.jumps ∧
      (script.facts.declared.map (·.item)).Nodup ∧
      ∀ id, id ∈ script.facts.declared.map (·.item) ↔
        script.outline.graph.contains id ∧ id ≠ Graph.main := by
  have hmatch := Script.facts_match h
  refine ⟨hmatch.uses_perm, hmatch.jumps_perm, ?_, hmatch.declared_iff⟩
  exact hmatch.declared.nodup_iff.2 hmatch.distinct

/-- The facts of a script with a jump and linked variables are those of its graph. -/
theorem Script.facts_agree_sample :
    ∃ script, Script.read {} sampleBindings.signature? sample.toList = .ok script ∧
      script.facts.uses.map (·.item) =
        [.typed "x" .number, .linked "b" "c", .typed "x" .number] ∧
      (script.facts.uses.map (·.item)).Perm script.outline.graph.uses ∧
      (script.facts.jumps.map (·.item)).Perm script.outline.graph.jumps ∧
      (script.facts.declared.map (·.item)).Nodup ∧
      ∀ id, id ∈ script.facts.declared.map (·.item) ↔
        script.outline.graph.contains id ∧ id ≠ Graph.main := by
  have huses : (Script.read {} sampleBindings.signature? sample.toList).toOption.map
      (·.facts.uses.map (·.item)) =
        some [.typed "x" .number, .linked "b" "c", .typed "x" .number] := by
    decide +kernel
  obtain ⟨script, hread, huses⟩ := Option.map_eq_some_iff.1 huses
  have hread := eq_ok_of_toOption hread
  exact ⟨script, hread, huses, Script.facts_agree hread⟩

/-! ## Compiling -/

/-- What is resolved is what the categories of the facts are. -/
theorem Facts.categories_of_resolve {f : Facts} {source : List Char} {T : Catalog Category}
    (h : f.resolve source = .ok T) : f.categories = .ok T := by
  rw [resolve] at h
  rcases hc : f.categories with e | T'
  · rw [hc] at h
    cases h
  · rw [hc] at h
    cases h
    rfl

/-- What a compiled graph comes from. -/
theorem compile_eq_ok {source : String} {graph : Graph}
    (h : compile options registry source = .ok graph) :
    ∃ script T, Script.read options registry source.toList = .ok script ∧
      script.facts.categories = .ok T ∧ script.facts.unresolved graph = [] ∧
      graph = script.outline.graph := by
  obtain ⟨script, hread, h⟩ := bind_eq_ok.1 h
  obtain ⟨T, hT, h⟩ := bind_eq_ok.1 h
  obtain ⟨_, hjumps, h⟩ := bind_eq_ok.1 h
  cases h
  refine ⟨script, T, hread, Facts.categories_of_resolve hT, ?_, rfl⟩
  rw [Facts.checkJumps] at hjumps
  split at hjumps
  · assumption
  · cases hjumps

/-- A compiled graph has no problems, so every story accepts it. -/
theorem compiled_accepted {source : String} {graph : Graph}
    (h : compile options registry source = .ok graph) :
    (∀ id nodes, graph.get? id = some nodes → ∀ n ∈ nodes, ∀ target,
        n.target? = some target → graph.contains target) ∧
      graph.problems = [] ∧
      ∀ bindings maxSteps, ∃ story, Story.ofGraph graph bindings maxSteps = .ok story := by
  obtain ⟨script, T, hread, -, hjumps, rfl⟩ := compile_eq_ok h
  have hmatch := Script.facts_match hread
  have hproblems : script.outline.graph.problems = [] :=
    Graph.problems_eq_nil fun n hn id => hmatch.target_contained hjumps hn
  refine ⟨fun id nodes hget n hn target => ?_, hproblems, fun bindings maxSteps => ?_⟩
  · have hn : n ∈ script.outline.graph.nodes := Graph.mem_nodes.2 ⟨id, nodes, hget, hn⟩
    exact hmatch.target_contained hjumps hn
  · rw [Story.ofGraph, hproblems]
    exact ⟨_, rfl⟩

/-- A graph that was compiled is accepted for a story. -/
theorem compiled_accepted_sample :
    ∃ graph, compile {} sampleBindings.signature? sample = .ok graph ∧ graph.problems = [] ∧
      ∃ story, Story.ofGraph graph sampleBindings 100 = .ok story := by
  have hok : (compile {} sampleBindings.signature? sample).toOption.isSome := by
    decide +kernel
  obtain ⟨graph, hgraph⟩ := Option.isSome_iff_exists.1 hok
  have hgraph := eq_ok_of_toOption hgraph
  obtain ⟨-, hproblems, hstory⟩ := compiled_accepted hgraph
  exact ⟨graph, hgraph, hproblems, hstory sampleBindings 100⟩

end Dialogue
