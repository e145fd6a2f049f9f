import Dialogue.Proofs.Compile.Agreement
import Dialogue.Proofs.Compile.Resolution
import Dialogue.Proofs.Expr.Soundness
import Dialogue.Proofs.Story.Course

/-!
# Stories without errors of evaluation

A story is *sound* if the scope and the bindings satisfy all that the nodes of its graph
mention (`Story.Sound`). A node of a sound story is carried out without an error of
evaluation (`Node.step_ne_eval`). Carrying out nodes changes neither graph nor scope nor
bindings, and giving a variable a value keeps its category; so a sound story stays sound
whatever the host asks for, and no call ends with such an error (`Story.Sound.turns`).

The story of a compiled graph is sound in every scope that suits the categories that the
compiler found (`Scope.Suits`): what the nodes mention is what was noted when the source
was read, the uses have got their categories, and every call has been checked.
-/

namespace Dialogue

/-! ## Nodes -/

section

variable {s : Scope} {bs : Bindings} {n : Node}

/-- The expression of a node has a value if its mentions are satisfied. -/
theorem Node.expr_value (hbs : bs.Honest) (h : ∀ m ∈ n.mentions, m.Satisfied s bs)
    {k : Category} {e : Expr k} (he : n.expr? = some ⟨k, e⟩) : ∃ a, e.value s bs = .ok a := by
  rw [Node.mentions, he] at h
  obtain ⟨a, ha⟩ := e.eval_of_satisfied hbs h
  exact ⟨a, by rw [Expr.value, ha]; rfl⟩

/-- A node whose mentions are satisfied does not fail for its expression. -/
theorem Node.step_ne_eval (hbs : bs.Honest) (h : ∀ m ∈ n.mentions, m.Satisfied s bs)
    (v : View) (e : EvalError) : n.step s bs v ≠ .error (.eval e) := by
  intro hstep
  cases n with
  | say _ text | append _ text | offer _ text | pause text =>
    obtain ⟨a, ha⟩ := Node.expr_value hbs h rfl
    rw [step, ha] at hstep
    cases hstep
  | choose =>
    rw [step] at hstep
    split at hstep <;> cases hstep
  | clear | jump | wait | leave => cases hstep

end

/-! ## Stories -/

/-- The scope and the bindings satisfy all that the nodes mention. -/
structure Story.Sound (s : Story) : Prop where
  /-- The bindings return what they promise. -/
  honest : s.bindings.Honest
  /-- The mentions are satisfied. -/
  satisfied : ∀ n ∈ s.graph.nodes, ∀ m ∈ n.mentions, m.Satisfied s.scope s.bindings

/-- A call that leaves a sound story and no error of evaluation. -/
structure Turn.Sound (t : Turn) : Prop where
  /-- The story is sound. -/
  story : t.story.Sound
  /-- An error is not one of evaluation. -/
  result : ∀ e, t.result ≠ .error (.eval e)

/-- Only graph, scope and bindings matter. -/
theorem Story.Sound.congr {s s' : Story} (h : s.Sound) (hg : s'.graph = s.graph)
    (hs : s'.scope = s.scope) (hb : s'.bindings = s.bindings) : s'.Sound where
  honest := hb ▸ h.honest
  satisfied := hg ▸ hs ▸ hb ▸ h.satisfied

namespace Session

variable {s t : Session} {ns : List Node}

/-- Nodes that are carried out change neither graph nor scope nor bindings. -/
theorem Tick.sound (h : Tick s ns t) (hs : s.story.Sound) : t.story.Sound := by
  cases h with
  | finish | leave | carry => exact hs.congr rfl rfl rfl

/-- A node of a sound story that fails does not fail for its expression. -/
theorem Fails.ne_eval {e : StoryError} (h : s.Fails e) (hs : s.story.Sound) (e' : EvalError) :
    e ≠ .eval e' := by
  obtain ⟨n, ⟨-, f, rest, -, hf⟩, hn⟩ := h
  rintro rfl
  have hmem : n ∈ s.story.graph.nodes := Graph.mem_nodes_of_block (List.mem_of_getElem? hf)
  exact n.step_ne_eval hs.honest (hs.satisfied n hmem) s.view e' hn

/-- A call that ends leaves a story sound. -/
theorem Ends.sound {r : Turn} (h : s.Ends r) (hs : s.story.Sound) : r.Sound := by
  cases h with
  | settled => exact ⟨hs, nofun⟩
  | failed hfails =>
    refine ⟨hs.congr rfl rfl rfl, fun e he => ?_⟩
    exact hfails.ne_eval hs e (Except.error.inj he)
  | runaway => exact ⟨hs.congr rfl rfl rfl, nofun⟩

end Session

namespace Story

variable {s s' : Story} {v v' : View} {r : Request}

/-- A call that opens a story leaves it sound. -/
theorem Opens.sound (h : s.Opens v r s' v') (hs : s.Sound) : s'.Sound := by
  cases h with
  | start | startAt | advance | resume | update | choose => exact hs.congr rfl rfl rfl

/-- A variable that gets another value keeps its category. -/
theorem Rests.sound {t : Turn} (h : s.Rests v r t) (hs : s.Sound) : t.Sound := by
  cases h with
  | idle => exact ⟨hs, nofun⟩
  | count | start => exact ⟨hs.congr rfl rfl rfl, nofun⟩
  | refuse he =>
    refine ⟨hs, fun e he' => he ?_⟩
    rw [Except.error.inj he']
    exact .eval
  | set hset =>
    refine ⟨⟨hs.honest, fun n hn m hm => ?_⟩, nofun⟩
    exact (hs.satisfied n hn m hm).keeps (Scope.set_keeps hset)

/-- Whatever the host asks for, a sound story stays sound. -/
theorem Sound.serve (h : s.Sound) (v : View) (r : Request) : (s.serve v r).Sound := by
  rcases Session.turn_cases ⟨s, v⟩ r with ⟨s', v', ns, m, hopens, hcourse, hends⟩ | hrests
  · exact hends.sound (hcourse.keeps (fun _ _ _ htick => htick.sound) (hopens.sound h))
  · exact hrests.sound h

/-- No call of the host ends with an error of evaluation. -/
theorem Sound.turns (h : s.Sound) (requests : List (View × Request)) :
    ∀ t ∈ s.turns requests, t.Sound := by
  induction requests generalizing s with
  | nil => exact fun t ht => absurd ht List.not_mem_nil
  | cons request rest ih =>
    intro t ht
    have hserve := h.serve request.1 request.2
    rcases List.mem_cons.1 ht with rfl | ht
    · exact hserve
    · exact ih hserve.story t ht

end Story

/-! ## Compiled stories -/

/-- The categories that are found for the variables of a source. -/
def compiledCategories (options : Options) (registry : Grammar.Registry) (source : String) :
    Except CompileError (Catalog Category) := do
  let script ← Script.read options registry source.toList
  script.facts.resolve source.toList

/-- A scope that holds what a graph with variables of these categories needs. -/
structure Scope.Suits (s : Scope) (T : Catalog Category) (g : Graph) : Prop where
  /-- Every variable has a value. -/
  defined : ∀ name ∈ g.variableNames, (s.category? name).isSome
  /-- It is of the category of the variable, if that is known. -/
  typed : ∀ name ∈ g.variableNames, ∀ k, T.get? name = some k → s.category? name = some k
  /-- Variables that are compared have values of one category. -/
  linked : ∀ l r, Use.linked l r ∈ g.uses → s.category? l = s.category? r

/-- The nodes of a compiled graph mention nothing that a scope that suits it lacks. -/
theorem Scope.Suits.satisfied {s : Scope} {T : Catalog Category} {bs : Bindings} {f : Facts}
    {o : Outline} (hs : s.Suits T o.graph) (hmatch : f.Match bs.signature? o.log)
    (hT : f.categories = .ok T) {n : Node} (hn : n ∈ o.graph.nodes) {m : Mention}
    (hm : m ∈ n.mentions) : m.Satisfied s bs := by
  have hvariable (name : String) (hname : name ∈ m.variableNames) :
      name ∈ o.graph.variableNames :=
    List.mem_flatMap.2 ⟨n, hn, List.mem_flatMap.2 ⟨m, hm, hname⟩⟩
  have huse (u : Use) (hu : m.use? = some u) : u ∈ o.graph.uses :=
    List.mem_flatMap.2 ⟨n, hn, List.mem_filterMap.2 ⟨m, hm, hu⟩⟩
  match m with
  | .use (.typed name k) =>
    have hk := Facts.get?_categories hT (hmatch.uses_perm.mem_iff.2 (huse _ rfl))
    exact hs.typed name (hvariable name List.mem_cons_self) k hk
  | .use (.linked l r) =>
    obtain ⟨k, hk⟩ := Option.isSome_iff_exists.1 (hs.defined l (hvariable l List.mem_cons_self))
    exact ⟨k, hk, hs.linked l r (huse _ rfl) ▸ hk⟩
  | .shown name =>
    exact Option.isSome_iff_exists.1 (hs.defined name (hvariable name List.mem_cons_self))
  | .call name signature =>
    refine hmatch.calls (.call name signature) ?_
    rw [← o.mentions_nodes]
    exact List.mem_flatMap.2 ⟨n, o.nodes_graph.mem_iff.1 hn, hm⟩

/-- A compiled story never fails for an expression: in a scope that suits the categories
    which were found, every expression has a value, and no call of the host ends with an
    error of evaluation, whatever the host asks for. -/
theorem compiled_sound {options : Options} {bs : Bindings} {source : String} {graph : Graph}
    {T : Catalog Category} (hbs : bs.Honest)
    (hgraph : compile options bs.signature? source = .ok graph)
    (hT : compiledCategories options bs.signature? source = .ok T) {scope : Scope}
    (hscope : scope.Suits T graph) :
    (∀ n ∈ graph.nodes, ∀ k e, n.expr? = some ⟨k, e⟩ → ∃ a, e.eval scope bs = .ok a) ∧
      ∀ story : Story, story.graph = graph → story.bindings = bs → story.scope = scope →
        ∀ requests, ∀ t ∈ story.turns requests, ∀ e, t.result ≠ .error (.eval e) := by
  obtain ⟨script, _, hread, -, -, rfl⟩ := compile_eq_ok hgraph
  have hmatch := Script.facts_match hread
  -- The categories that the variables suit are those that the uses resolve to.
  have hcategories : script.facts.categories = .ok T := by
    rw [compiledCategories, hread] at hT
    exact Facts.categories_of_resolve hT
  have hsatisfied (n : Node) (hn : n ∈ script.outline.graph.nodes) (m : Mention)
      (hm : m ∈ n.mentions) : m.Satisfied scope bs := hscope.satisfied hmatch hcategories hn hm
  refine ⟨fun n hn k e he => ?_, fun story hstory hbindings hvariables requests t ht => ?_⟩
  · have hsatisfied := hsatisfied n hn
    rw [Node.mentions, he] at hsatisfied
    exact e.eval_of_satisfied hbs hsatisfied
  · have hsound : story.Sound := by
      refine ⟨hbindings ▸ hbs, ?_⟩
      rw [hstory, hbindings, hvariables]
      exact hsatisfied
    exact (hsound.turns requests t ht).result

/-- Values for the variables of the sample. -/
def sampleScope : Scope :=
  .ofList [("b", .boolean true), ("c", .boolean false), ("name", .text "Ann"), ("x", .number 1)]

/-- The bindings of the sample answer what their signatures say. -/
theorem honest_sampleBindings : sampleBindings.Honest := by
  intro name b hb vs
  rw [sampleBindings, Catalog.ofList, List.foldl_cons, List.foldl_nil, Catalog.get?_insert] at hb
  split at hb
  · cases hb
    dsimp only
    split <;> rfl
  · cases hb

/-- The scope of the sample has its variables, with their categories. -/
theorem suits_sampleScope {graph : Graph}
    (hv : graph.variableNames = ["x", "b", "c", "x", "name"])
    (hu : graph.uses = [.typed "x" .number, .linked "b" "c", .typed "x" .number]) :
    sampleScope.Suits (.ofList [("x", .number)]) graph where
  defined := by
    rw [hv]
    decide +kernel
  typed name _ k hk := by
    rw [Catalog.ofList, List.foldl_cons, List.foldl_nil, Catalog.get?_insert] at hk
    split at hk
    · rename_i hname
      cases hk
      rw [← hname]
      decide +kernel
    · cases hk
  linked l r h := by
    rw [hu] at h
    obtain ⟨rfl, rfl⟩ : l = "b" ∧ r = "c" := by simpa using h
    decide +kernel

/-- A graph with a call, a comparison and linked variables is sound. -/
theorem compiled_sound_sample :
    ∃ graph, compile {} sampleBindings.signature? sample = .ok graph ∧
      sampleScope.Suits (.ofList [("x", .number)]) graph ∧
      (∀ n ∈ graph.nodes, ∀ k e, n.expr? = some ⟨k, e⟩ →
        ∃ a, e.eval sampleScope sampleBindings = .ok a) ∧
      ∀ t ∈ Story.turns ⟨graph, sampleScope, sampleBindings, 100, [], .finished, 0⟩
        [(.empty, .start), (.empty, .set "x" (.text "one")), (.empty, .startAt "a")],
        ∀ e, t.result ≠ .error (.eval e) := by
  have hT : (compiledCategories {} sampleBindings.signature? sample).toOption =
      some (.ofList [("x", .number)]) := by
    decide +kernel
  have hnames : (compile {} sampleBindings.signature? sample).toOption.map
      (fun g => (g.variableNames, g.uses)) =
        some (["x", "b", "c", "x", "name"],
          [.typed "x" .number, .linked "b" "c", .typed "x" .number]) := by
    decide +kernel
  have hT := eq_ok_of_toOption hT
  obtain ⟨graph, hgraph, hnames⟩ := Option.map_eq_some_iff.1 hnames
  obtain ⟨hv, hu⟩ := Prod.mk.inj hnames
  have hgraph := eq_ok_of_toOption hgraph
  have hsuits := suits_sampleScope hv hu
  obtain ⟨heval, hstory⟩ := compiled_sound honest_sampleBindings hgraph hT hsuits
  exact ⟨graph, hgraph, hsuits, heval, hstory _ rfl rfl rfl _⟩

end Dialogue
