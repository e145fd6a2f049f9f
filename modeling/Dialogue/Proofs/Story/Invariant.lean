import Dialogue.Proofs.Graph.Nodes
import Dialogue.Proofs.Story.Course

/-!
# The states that a story gets to

Between two calls a story waits for something or is over. It is over just when it is in no
block, time is left only of a pause, and blocks that do not exist are neither entered nor
offered (`Session.Coherent`). Every tick keeps this, and so does all that a call does
before it carries out nodes or instead; a call that fails leaves a story that is over
(`Session.kept_coherent`). So it is true of every session (`Session.reachable_coherent`).
-/

namespace Dialogue

/-! ## Views -/

namespace View

/-- An offer adds no choice but its own. -/
theorem mem_offerChoice {id text : String} {os : List Offer} {o : Offer}
    (h : o ∈ offerChoice id text os) : o ∈ os ∨ o.id = id := by
  induction os with
  | nil => exact .inr (congrArg Offer.id (List.mem_singleton.1 h))
  | cons p os ih =>
    rw [offerChoice] at h
    split at h
    · rcases List.mem_cons.1 h with rfl | h
      · exact .inr rfl
      · exact .inl (List.mem_cons_of_mem _ h)
    · rcases List.mem_cons.1 h with rfl | h
      · exact .inl List.mem_cons_self
      · exact (ih h).imp_left (List.mem_cons_of_mem _)

/-- Clearing a view offers nothing new. -/
theorem mem_clear {v : View} {kind : ClearKind} {o : Offer} (h : o ∈ (v.clear kind).choices) :
    o ∈ v.choices := by
  cases kind with
  | all | choices => cases h
  | dialog => exact h

end View

/-! ## Nodes -/

namespace Node

variable {s : Scope} {bs : Bindings} {v v' : View} {n : Node} {step : Step}

/-- Where a node may lead to, and what the story may wait for after it. -/
inductive Goes : Node → Step → Prop
  /-- On to the next node, at once. -/
  | on {n : Node} : Goes n .advance
  /-- To the start of a block. -/
  | jump {id : String} : Goes (.jump id) ⟨.advance, .jump id⟩
  /-- Out of the block. -/
  | leave : Goes .leave ⟨.advance, .leave⟩
  /-- On to the next node once a choice is picked. -/
  | choose : Goes .choose (.await .awaitChoice)
  /-- On to the next node once the host goes on. -/
  | wait : Goes .wait (.await .awaitResume)
  /-- On to the next node after some time. -/
  | pause {e : Expr .number} {t : Float} (ht : 0 < t) : Goes (.pause e) (.await (.awaitDuration t))

/-- A node goes where its kind says. -/
theorem step_goes (h : n.step s bs v = .ok (step, v')) : n.Goes step := by
  cases n with
  | say _ e | append _ e | offer _ e =>
    rw [Node.step] at h
    cases he : e.value s bs with
    | ok _ => rw [he] at h; cases h; exact .on
    | error _ => rw [he] at h; cases h
  | pause e =>
    rw [Node.step] at h
    cases he : e.value s bs with
    | error _ => rw [he] at h; cases h
    | ok t =>
      rw [he] at h
      cases h
      split
      · rename_i ht
        exact .pause ht
      · exact .on
  | choose =>
    rw [Node.step] at h
    split at h
    · cases h
    · cases h
      exact .choose
  | clear => cases h; exact .on
  | jump => cases h; exact .jump
  | wait => cases h; exact .wait
  | leave => cases h; exact .leave

/-- A node that fails stops the story. -/
theorem stops_of_step {e : StoryError} (h : n.step s bs v = .error e) : e.Stops := by
  cases n with
  | say _ e | append _ e | offer _ e | pause e =>
    rw [Node.step, Expr.value] at h
    cases he : e.eval s bs with
    | ok _ => rw [he] at h; cases h
    | error _ => rw [he] at h; cases h; exact .eval
  | choose =>
    rw [Node.step] at h
    split at h
    · cases h
      exact .noChoices
    · cases h
  | clear | jump | wait | leave => cases h

/-- What is on offer after a node was on offer before, or it is offered by the node. -/
theorem step_offers (h : n.step s bs v = .ok (step, v')) :
    ∀ o ∈ v'.choices, o ∈ v.choices ∨ n.target? = some o.id := by
  cases n with
  | say _ e | append _ e =>
    rw [Node.step] at h
    cases he : e.value s bs with
    | ok _ => rw [he] at h; cases h; exact fun o ho => .inl ho
    | error _ => rw [he] at h; cases h
  -- Of the nodes only an offer adds to what is on offer, and it adds itself.
  | offer id e =>
    rw [Node.step] at h
    cases he : e.value s bs with
    | ok text =>
      rw [he] at h
      cases h
      intro o ho
      exact (View.mem_offerChoice ho).imp_right fun hid => congrArg some hid.symm
    | error _ => rw [he] at h; cases h
  | pause e =>
    rw [Node.step] at h
    cases he : e.value s bs with
    | error _ => rw [he] at h; cases h
    | ok _ => rw [he] at h; cases h; exact fun o ho => .inl ho
  | choose =>
    rw [Node.step] at h
    split at h
    · cases h
    · cases h
      exact fun o ho => .inl ho
  | clear kind =>
    cases h
    exact fun o ho => .inl (View.mem_clear ho)
  | jump | wait | leave => cases h; exact fun o ho => .inl ho

end Node

/-! ## Coherence -/

namespace Frame

/-- A place in a block that exists, or its end. -/
def Within (g : Graph) (f : Frame) : Prop :=
  ∃ nodes, g.get? f.block = some nodes ∧ f.next ≤ nodes.length

variable {g : Graph}

/-- The start of a block is within the graph. -/
theorem Within.start {id : String} (h : g.contains id) : Within g ⟨id, 0⟩ := by
  obtain ⟨nodes, hnodes⟩ := Option.isSome_iff_exists.1 h
  exact ⟨nodes, hnodes, Nat.zero_le _⟩

/-- The place behind a node is within the graph. -/
theorem Within.succ {f : Frame} {n : Node} (h : f.node? g = some n) : f.succ.Within g := by
  rw [node?, Graph.block] at h
  cases hblock : g.get? f.block with
  | none => simp [hblock] at h
  | some nodes =>
    rw [hblock] at h
    obtain ⟨hlength, -⟩ := List.getElem?_eq_some_iff.1 h
    exact ⟨nodes, hblock, hlength⟩

/-- The next node is one of the graph. -/
theorem mem_nodes_of_node? {f : Frame} {n : Node} (h : f.node? g = some n) : n ∈ g.nodes :=
  Graph.mem_nodes_of_block (List.mem_of_getElem? h)

end Frame

/-- There is time left of a pause, and only of a pause. -/
def Story.Timed (s : Story) : Prop :=
  match s.status with
  | .awaitDuration t => s.remaining = t ∧ 0 < t
  | _ => s.remaining = 0

namespace Session

/-- What is true of a session, also while nodes are carried out. -/
structure Coherent (g : Graph) (s : Session) : Prop where
  /-- The blocks stay as they are. -/
  graph : s.story.graph = g
  /-- Time is left of a pause only. -/
  timed : s.story.Timed
  /-- The blocks that the story is in exist. -/
  frames : ∀ f ∈ s.story.stack, f.Within g
  /-- The choices on offer lead to blocks that exist. -/
  offers : ∀ o ∈ s.view.choices, g.contains o.id
  /-- The story is over if it is in no block. -/
  done : s.story.status ≠ .advance → (s.story.status = .finished ↔ s.story.stack = [])

variable {g : Graph} {s t : Session} {ns : List Node}

namespace Coherent

/-- A story that is stopped is over. -/
theorem stop (h : s.Coherent g) : Coherent g ⟨s.story.stop, s.view⟩ :=
  ⟨h.graph, rfl, nofun, h.offers, fun _ => iff_of_true rfl rfl⟩

/-- A tick keeps a session coherent. -/
theorem tick (hg : g.problems = []) (h : s.Coherent g) (htick : Tick s ns t) : t.Coherent g := by
  cases htick with
  | finish => exact h.stop
  | leave hs hstack _ =>
    have hframes := hstack ▸ h.frames
    exact ⟨h.graph, h.timed, (List.forall_mem_cons.1 hframes).2, h.offers, fun hs' => absurd hs hs'⟩
  -- The graph has no problems, so where a node leads there is a block.
  | @carry s v v' f rest n step hs hstack hf hn =>
    obtain rfl := h.graph
    have hmem := Frame.mem_nodes_of_node? hf
    have htarget {id : String} (hid : n.target? = some id) : s.graph.contains id :=
      Graph.contains_of_problems_eq_nil hg hmem hid
    have hrest : ∀ f' ∈ rest, f'.Within s.graph :=
      (List.forall_mem_cons.1 (hstack ▸ h.frames)).2
    have hsucc := List.forall_mem_cons.2 ⟨Frame.Within.succ hf, hrest⟩
    have htimed : s.remaining = 0 := by
      have htimed := h.timed
      rwa [Story.Timed, hs] at htimed
    have hoffers : ∀ o ∈ v'.choices, s.graph.contains o.id := fun o ho =>
      (Node.step_offers hn o ho).elim (h.offers o) htarget
    cases Node.step_goes hn with
    | on => exact ⟨rfl, htimed, hsucc, hoffers, fun h => absurd rfl h⟩
    | jump =>
      have hjump := List.forall_mem_cons.2 ⟨Frame.Within.start (htarget rfl), hrest⟩
      exact ⟨rfl, htimed, hjump, hoffers, fun h => absurd rfl h⟩
    | leave => exact ⟨rfl, htimed, hrest, hoffers, fun h => absurd rfl h⟩
    | choose | wait => exact ⟨rfl, htimed, hsucc, hoffers, fun _ => iff_of_false nofun nofun⟩
    | pause ht => exact ⟨rfl, ⟨rfl, ht⟩, hsucc, hoffers, fun _ => iff_of_false nofun nofun⟩

/-- A call goes on with a coherent session. -/
theorem opens (h : s.Coherent g) {r : Request} {story : Story} {view : View}
    (hopens : s.story.Opens s.view r story view) : Coherent g ⟨story, view⟩ := by
  obtain ⟨story, view⟩ := s
  have hstart {id : String} (hid : story.graph.contains id) :
      ∀ f ∈ [⟨id, 0⟩], Frame.Within g f :=
    List.forall_mem_singleton.2 (.start (h.graph ▸ hid))
  cases hopens with
  | start hmain => exact ⟨h.graph, rfl, hstart hmain, h.offers, fun h => absurd rfl h⟩
  | startAt hid => exact ⟨h.graph, rfl, hstart hid, h.offers, fun h => absurd rfl h⟩
  | advance => exact h
  | resume | update => exact ⟨h.graph, rfl, h.frames, h.offers, fun h => absurd rfl h⟩
  | choose hs hid =>
    obtain ⟨o, ho, hid⟩ := List.any_eq_true.1 hid
    have hcontains := of_decide_eq_true hid ▸ h.offers o ho
    have hframes := List.forall_mem_cons.2 ⟨Frame.Within.start hcontains, h.frames⟩
    -- Nothing is left of a pause, as the story waited for a choice.
    have htimed : story.remaining = 0 := by
      have htimed := h.timed
      rwa [Story.Timed, hs] at htimed
    exact ⟨h.graph, htimed, hframes, nofun, fun h => absurd rfl h⟩

end Coherent

/-- Coherence is kept by everything. -/
theorem kept_coherent (hg : g.problems = []) : Kept (Coherent g) where
  tick := .tick hg
  stop := .stop
  opens h := h.opens
  rests {s r t} h hrests := by
    cases hrests with
    | idle | refuse => exact h
    | count hs hleft =>
      have hstack : s.story.stack ≠ [] := by
        rw [ne_eq, ← h.done (hs ▸ nofun), hs]
        exact nofun
      exact ⟨h.graph, ⟨rfl, hleft⟩, h.frames, h.offers, fun _ => iff_of_false nofun hstack⟩
    | set => exact ⟨h.graph, h.timed, h.frames, h.offers, h.done⟩
    | start => exact h.stop
  other {s a} h ha := by
    cases a with
    | call r => exact absurd rfl (ha r)
    | rescope | rebind => exact ⟨h.graph, h.timed, h.frames, h.offers, h.done⟩
    | clear =>
      exact ⟨h.graph, h.timed, h.frames, fun o ho => h.offers o (View.mem_clear ho), h.done⟩
    | renew => exact ⟨h.graph, h.timed, h.frames, nofun, h.done⟩

/-- A story that is made of a graph is coherent, and over. -/
theorem coherent_ofStory {bs : Bindings} {limit : Nat} {story : Story}
    (h : Story.ofGraph g bs limit = .ok story) :
    g.problems = [] ∧ (ofStory story).Coherent g ∧ story.status = .finished := by
  obtain ⟨hproblems, rfl⟩ := Story.eq_of_ofGraph h
  exact ⟨hproblems, ⟨rfl, rfl, nofun, nofun, fun _ => iff_of_true rfl rfl⟩, rfl⟩

/-- Whatever a host does, its session is coherent and between two calls. -/
theorem coherent_acts {bs : Bindings} {limit : Nat} {story : Story}
    (h : Story.ofGraph g bs limit = .ok story) (actions : List Action) :
    ((ofStory story).acts actions).Coherent g ∧
      ((ofStory story).acts actions).story.status ≠ .advance := by
  obtain ⟨hg, hcoherent, hstatus⟩ := coherent_ofStory h
  refine ⟨(kept_coherent hg).acts hcoherent actions, acts_waits (fun hadvance => ?_) actions⟩
  cases hstatus.symm.trans hadvance

/-- Whatever a host does, whether its calls succeed or fail: after each call the story waits
    or is over, so that going on without a reason does nothing; it is over just when it is
    in no block; time is left of a pause, and then more than none, or no time is left; and
    the blocks that it is in and those that it offers exist, and it is not past their ends. -/
theorem reachable_coherent {g : Graph} {bs : Bindings} {limit : Nat} {story : Story}
    (h : Story.ofGraph g bs limit = .ok story) (actions : List Action) {s : Session}
    (hs : (Session.ofStory story).acts actions = s) :
    (s.story.status ≠ .advance ∧ ∀ v, s.story.advance v = ⟨.ok s.story.status, s.story, v⟩) ∧
      (s.story.status = .finished ↔ s.story.stack = []) ∧
      (∀ t, s.story.status = .awaitDuration t → s.story.remaining = t ∧ 0 < t) ∧
      ((∀ t, s.story.status ≠ .awaitDuration t) → s.story.remaining = 0) ∧
      s.story.graph = g ∧
      (∀ f ∈ s.story.stack, ∃ nodes, g.get? f.block = some nodes ∧ f.next ≤ nodes.length) ∧
      ∀ o ∈ s.view.choices, g.contains o.id := by
  obtain ⟨hcoherent, hwaits⟩ := hs ▸ coherent_acts h actions
  have htimed := hcoherent.timed
  refine ⟨⟨hwaits, fun v => ?_⟩, hcoherent.done hwaits, fun t ht => ?_, fun ht => ?_,
    hcoherent.graph, hcoherent.frames, hcoherent.offers⟩
  · rw [Story.advance]
    split
    · rename_i hadvance
      exact absurd hadvance hwaits
    · rfl
  · rwa [Story.Timed, ht] at htimed
  · rw [Story.Timed] at htimed
    split at htimed
    · rename_i t hstatus
      exact absurd hstatus (ht t)
    · exact htimed

/-- A graph in which a choice is offered before a pause, and leads to a block that waits. -/
def tour : Graph :=
  .ofBlocks
    [(Graph.main,
      [.say none (.literal "Hello"), .offer "tea" (.literal "Tea"), .pause (.literal (2 : Float)),
        .choose, .append none (.literal "Bye")]),
      ("tea", [.wait, .say none (.literal "Tea")])]

/-- A story of this graph that has not started. -/
def tourStory : Story := ⟨tour, ∅, ∅, 10, [], .finished, 0⟩

/-- A story is made of the tour. -/
theorem ofGraph_tour : Story.ofGraph tour ∅ 10 = .ok tourStory := if_pos (by decide +kernel)

/-- A story that has paused for a while is coherent. -/
theorem reachable_coherent_tour :
    ∃ s, (ofStory tourStory).acts [.call .start, .call (.update 0.5), .rescope ∅] = s ∧
      s.story.status = .awaitDuration 1.5 ∧ s.story.remaining = 1.5 ∧ (0 : Float) < 1.5 ∧
      s.story.stack ≠ [] ∧ ∀ f ∈ s.story.stack,
        ∃ nodes, tour.get? f.block = some nodes ∧ f.next ≤ nodes.length := by
  have hstatus : ((ofStory tourStory).acts
      [.call .start, .call (.update 0.5), .rescope ∅]).story.status = .awaitDuration 1.5 := by
    decide +kernel
  obtain ⟨-, hover, htimed, -, -, hframes, -⟩ := reachable_coherent ofGraph_tour
    [.call .start, .call (.update 0.5), .rescope ∅] rfl
  obtain ⟨hremaining, hpos⟩ := htimed _ hstatus
  refine ⟨_, rfl, hstatus, hremaining, hpos, fun hstack => ?_, hframes⟩
  cases hstatus.symm.trans (hover.2 hstack)

end Session
end Dialogue
