import Mathlib.Data.List.Forall2
import Dialogue.Proofs.Number.Elapsed
import Dialogue.Proofs.Story.Invariant

/-!
# Waits and pauses

A story waits for the host to go on, or for time to pass, wherever its nodes say so. The
host sees no more of it than that: if it ends every wait and every pause, it gets to the
same choices, the same end or the same error, with the same view, as with the graph that
the waits and pauses are deleted from (`Graph.withoutPauses`).

A session of the one graph *shadows* a session of the other if they are at the same places,
not counting what is deleted (`Session.Shadows`). The second one may be at such a node, and
even wait there: then the first one is about to go on. Every tick of a session is a tick of
its shadow, or the shadow stays where it is (`Session.Shadows.tick`); so a course that is
cut into calls is one course of the shadow (`Session.Shadows.driven`).
-/

namespace Dialogue

/-! ## Graphs without waits and pauses -/

/-- Is this a wait or a pause? -/
def Node.pauses : Node → Bool
  | wait => true
  | pause _ => true
  | _ => false

namespace Graph

/-- The graph without its waits and pauses. -/
def withoutPauses (g : Graph) : Graph := g.map fun nodes => nodes.filter fun n => !n.pauses

variable (g : Graph)

/-- Each block loses its waits and pauses. -/
theorem block_withoutPauses (id : String) :
    g.withoutPauses.block id = (g.block id).filter fun n => !n.pauses := by
  rw [block, block, withoutPauses, Catalog.get?_map]
  cases g.get? id <;> rfl

/-- No block is lost. -/
theorem contains_withoutPauses (id : String) : g.withoutPauses.contains id = g.contains id := by
  rw [Catalog.contains, withoutPauses, Catalog.get?_map, Option.isSome_map, Catalog.contains]

variable {g}

/-- Without waits and pauses there are no more problems than with them. -/
theorem problems_withoutPauses (h : g.problems = []) : g.withoutPauses.problems = [] := by
  refine problems_eq_nil fun n hn id hid => ?_
  obtain ⟨block, nodes, hnodes, hn⟩ := mem_nodes.1 hn
  rw [withoutPauses, Catalog.get?_map, Option.map_eq_some_iff] at hnodes
  obtain ⟨nodes, hnodes, rfl⟩ := hnodes
  have hmem : n ∈ g.nodes := mem_nodes.2 ⟨block, nodes, hnodes, List.mem_of_mem_filter hn⟩
  rw [contains_withoutPauses]
  exact contains_of_problems_eq_nil h hmem hid

end Graph

/-! ## Shadows -/

/-- What remains of a signal without waits and pauses. -/
def Signal.unpaused : Signal → Signal
  | awaitResume => advance
  | awaitDuration _ => advance
  | s => s

namespace Frame

/-- The same place in a block, in the graph and in the graph without waits and pauses. -/
structure Shadows (g : Graph) (f f' : Frame) : Prop where
  block : f'.block = f.block
  rest : (g.withoutPauses.block f'.block).drop f'.next =
    ((g.block f.block).drop f.next).filter fun n => !n.pauses

variable {g : Graph} {f f' : Frame} {n : Node}

/-- The start of a block shadows itself. -/
theorem shadows_start (g : Graph) (id : String) : Shadows g ⟨id, 0⟩ ⟨id, 0⟩ :=
  ⟨rfl, g.block_withoutPauses id⟩

/-- The next node is the first one of what is left of the block. -/
theorem node?_eq_head? (g : Graph) (f : Frame) :
    f.node? g = ((g.block f.block).drop f.next).head? :=
  List.head?_drop.symm

/-- What is left of a block is the next node and what is left behind it. -/
theorem drop_of_node? (h : f.node? g = some n) :
    (g.block f.block).drop f.next = n :: (g.block f.succ.block).drop f.succ.next := by
  obtain ⟨hlt, rfl⟩ := List.getElem?_eq_some_iff.1 h
  exact List.drop_eq_getElem_cons hlt

namespace Shadows

/-- A shadow of a block that is used up is used up. -/
theorem used (h : Shadows g f f') (hf : f.node? g = none) : f'.node? g.withoutPauses = none := by
  rw [node?_eq_head?, List.head?_eq_none_iff] at hf ⊢
  rw [h.rest, hf, List.filter_nil]

/-- A wait or a pause is not in the shadow. -/
theorem skip (h : Shadows g f f') (hf : f.node? g = some n) (hn : n.pauses) :
    Shadows g f.succ f' := by
  have hrest := h.rest
  rw [drop_of_node? hf, List.filter_cons_of_neg (by simp [hn])] at hrest
  exact ⟨h.block, hrest⟩

/-- Any other node is. -/
theorem succ (h : Shadows g f f') (hf : f.node? g = some n) (hn : ¬ n.pauses) :
    f'.node? g.withoutPauses = some n ∧ Shadows g f.succ f'.succ := by
  have hrest := h.rest
  rw [drop_of_node? hf, List.filter_cons_of_pos (by simp [hn])] at hrest
  have hf' : f'.node? g.withoutPauses = some n := by
    rw [node?_eq_head?, hrest, List.head?_cons]
  rw [drop_of_node? hf'] at hrest
  exact ⟨hf', h.block, (List.cons.inj hrest).2⟩

end Shadows
end Frame

/-- After a wait or a pause the view is what it was, and the story goes on after the node. -/
theorem Node.step_of_pauses {s : Scope} {bs : Bindings} {v v' : View} {n : Node} {step : Step}
    (hn : n.pauses) (h : n.step s bs v = .ok (step, v')) :
    v' = v ∧ step.flow = .next ∧ step.signal.unpaused = .advance := by
  cases n with
  | say | append | offer | choose | clear | jump | leave => cases hn
  | wait =>
    cases h
    exact ⟨rfl, rfl, rfl⟩
  | pause e =>
    rw [Node.step] at h
    cases he : e.value s bs with
    | error _ => rw [he] at h; cases h
    | ok t =>
      rw [he] at h
      cases h
      refine ⟨rfl, ?_⟩
      split <;> exact ⟨rfl, rfl⟩

namespace Session

/-- The same session with the graph and with the graph without waits and pauses. Where the
    one waits or pauses, the other one goes on. -/
structure Shadows (g : Graph) (s s' : Session) : Prop where
  graph : s.story.graph = g
  graph' : s'.story.graph = g.withoutPauses
  scope : s'.story.scope = s.story.scope
  bindings : s'.story.bindings = s.story.bindings
  view : s'.view = s.view
  status : s'.story.status = s.story.status.unpaused
  stack : List.Forall₂ (Frame.Shadows g) s.story.stack s'.story.stack
  /-- The time that a pause takes can be told. -/
  lasts : ∀ e, Node.pause e ∈ g.nodes → ∃ t, e.eval s.story.scope s.story.bindings = .ok t

/-- Stories that are stopped differ in their graphs only. -/
theorem shadows_stop {s t : Story} (v : View) (hgraph : t.graph = s.graph.withoutPauses)
    (hscope : t.scope = s.scope) (hbindings : t.bindings = s.bindings)
    (hlasts : ∀ e, Node.pause e ∈ s.graph.nodes → ∃ x, e.eval s.scope s.bindings = .ok x) :
    Shadows s.graph ⟨s.stop, v⟩ ⟨t.stop, v⟩ :=
  ⟨rfl, hgraph, hscope, hbindings, rfl, rfl, .nil, hlasts⟩

namespace Shadows

variable {g : Graph} {s s' t : Session} {ns : List Node}

/-- Both stories are stopped. -/
theorem stop (h : Shadows g s s') : Shadows g ⟨s.story.stop, s.view⟩ ⟨s'.story.stop, s'.view⟩ :=
  { h with status := rfl, stack := .nil }

/-- Where a session goes on, its shadow does. -/
theorem advance (h : Shadows g s s') (hs : s.story.status = .advance) :
    s'.story.status = .advance :=
  h.status.trans (congrArg Signal.unpaused hs)

/-- Nodes do the same in both. -/
theorem step_eq (h : Shadows g s s') (n : Node) :
    n.step s'.story.scope s'.story.bindings s'.view =
      n.step s.story.scope s.story.bindings s.view := by
  rw [h.scope, h.bindings, h.view]

/-- After a wait or a pause the shadow is where it should be: it has no such node. -/
theorem skip (h : Shadows g s s') (hs : s.story.status = .advance) {f f' : Frame}
    {rest rest' : List Frame} {n : Node} {step : Step} {v : View}
    (hn : n.step s.story.scope s.story.bindings s.view = .ok (step, v)) (hpauses : n.pauses)
    (hf : f.node? g = some n) (hf' : f.Shadows g f')
    (hrest : List.Forall₂ (Frame.Shadows g) rest rest') (hstack : s'.story.stack = f' :: rest') :
    Shadows g ⟨s.story.after step (f.succ :: rest), v⟩ s' := by
  obtain ⟨rfl, hflow, hsignal⟩ := Node.step_of_pauses hpauses hn
  refine { h with status := (h.advance hs).trans hsignal.symm, stack := ?_ }
  rw [hstack, Story.after, hflow]
  exact .cons (hf'.skip hf hpauses) hrest

/-- After any other node both stories are past it, or where it leads to. -/
theorem after (h : Shadows g s s') {f f' : Frame} {rest rest' : List Frame} {n : Node}
    {step : Step} {v : View} (hn : n.Goes step) (hpauses : ¬ n.pauses) (hf : f.Shadows g f')
    (hrest : List.Forall₂ (Frame.Shadows g) rest rest') :
    Shadows g ⟨s.story.after step (f :: rest), v⟩ ⟨s'.story.after step (f' :: rest'), v⟩ := by
  cases hn with
  | on | choose => exact { h with view := rfl, status := rfl, stack := .cons hf hrest }
  | leave => exact { h with view := rfl, status := rfl, stack := hrest }
  | @jump id =>
    have hstack := List.Forall₂.cons (Frame.shadows_start g id) hrest
    exact { h with view := rfl, status := rfl, stack := hstack }
  | wait | pause => cases hpauses rfl

/-- The shadow does what a session does, or stays where it is. -/
theorem tick (h : Shadows g s s') (htick : Tick s ns t) :
    ∃ t', Course s' (ns.filter fun n => !n.pauses) t' ∧ Shadows g t t' := by
  obtain ⟨story', view'⟩ := s'
  have hs' := h.advance htick.status
  have hstack' := h.stack
  cases htick with
  | finish _ hstack =>
    rw [hstack] at hstack'
    exact ⟨_, .single (.finish hs' (List.forall₂_nil_left_iff.1 hstack')), h.stop⟩
  | leave _ hstack hf =>
    obtain rfl := h.graph
    rw [hstack] at hstack'
    obtain ⟨f', rest', hf', hrest, heq⟩ := List.forall₂_cons_left_iff.1 hstack'
    exact ⟨_, .single (.leave hs' heq (h.graph' ▸ hf'.used hf)), { h with stack := hrest }⟩
  | @carry s v v' f rest n step hs hstack hf hn =>
    obtain rfl : s.graph = g := h.graph
    rw [hstack] at hstack'
    obtain ⟨f', rest', hf', hrest, heq⟩ := List.forall₂_cons_left_iff.1 hstack'
    -- At a pause the shadow stays where it is, since it has no such node.
    by_cases hpauses : n.pauses
    · rw [List.filter_cons_of_neg (by simp [hpauses])]
      exact ⟨_, .refl, h.skip hs hn hpauses hf hf' hrest heq⟩
    · obtain ⟨hnode, hsucc⟩ := hf'.succ hf hpauses
      rw [List.filter_cons_of_pos (by simp [hpauses])]
      exact ⟨_, .single (.carry hs' heq (h.graph' ▸ hnode) ((h.step_eq n).trans hn)),
        h.after (Node.step_goes hn) hpauses hsucc hrest⟩

/-- A course is that of the shadow, without waits and pauses. -/
theorem course (h : Shadows g s s') (hcourse : Course s ns t) :
    ∃ t', Course s' (ns.filter fun n => !n.pauses) t' ∧ Shadows g t t' := by
  induction hcourse generalizing s' with
  | refl => exact ⟨s', .refl, h⟩
  | step htick _ ih =>
    obtain ⟨u', hu, hshadows⟩ := h.tick htick
    obtain ⟨t', ht, hshadows⟩ := ih hshadows
    rw [List.filter_append]
    exact ⟨t', hu.trans ht, hshadows⟩

/-- A node that fails is not a wait or a pause, so it fails in the shadow. -/
theorem fails (h : Shadows g s s') {e : StoryError} (hfails : s.Fails e) : s'.Fails e := by
  obtain ⟨n, ⟨hs, f, rest, hstack, hf⟩, hn⟩ := hfails
  obtain rfl := h.graph
  have hpauses : ¬ n.pauses := by
    cases n with
    | say | append | offer | choose | clear | jump | leave => exact nofun
    | wait => cases hn
    | pause seconds =>
      obtain ⟨t, ht⟩ := h.lasts seconds (Frame.mem_nodes_of_node? hf)
      rw [Node.step, Expr.value, ht] at hn
      cases hn
  have hstack' := h.stack
  rw [hstack] at hstack'
  obtain ⟨f', rest', hf', -, heq⟩ := List.forall₂_cons_left_iff.1 hstack'
  exact ⟨n, ⟨h.advance hs, f', rest', heq, h.graph' ▸ (hf'.succ hf hpauses).1⟩,
    (h.step_eq n).trans hn⟩

end Shadows
end Session

/-! ## Hosts that end every wait and pause -/

namespace Turn

/-- The story waits for the host to go on, or for time to pass. -/
def Pauses (t : Turn) : Prop := t.result = .ok .awaitResume ∨ ∃ x, t.result = .ok (.awaitDuration x)

/-- The story is where the host cannot but pick a choice, start it again, or give up; and the
    call did not carry out too many nodes. -/
def Settles (t : Turn) : Prop := ¬ t.Pauses ∧ ∀ limit, t.result ≠ .error (.runaway limit)

/-- What a host gets to that goes on after a wait or a pause, any number of times. -/
inductive Driven : Turn → Turn → Prop
  /-- It stops here. -/
  | refl {t : Turn} : Driven t t
  /-- It ends a wait, or cuts a pause short. -/
  | resume {t u : Turn} (h : t.Pauses) (hu : (t.story.resume t.view).Driven u) : Driven t u
  /-- It lets enough time pass. -/
  | update {t u : Turn} {x elapsed : Float} (h : t.result = .ok (.awaitDuration x))
      (helapsed : t.story.remaining ≤ elapsed) (hu : (t.story.update t.view elapsed).Driven u) :
      Driven t u

/-- A turn that does not pause is not driven on. -/
theorem Driven.eq_of_not_pauses {t u : Turn} (h : t.Driven u) (ht : ¬ t.Pauses) : u = t := by
  cases h with
  | refl => rfl
  | resume hpauses => exact absurd hpauses ht
  | update hpauses => exact absurd (.inr ⟨_, hpauses⟩) ht

/-- The same turn with the graph and with the graph without waits and pauses. -/
structure Shadows (g : Graph) (t t' : Turn) : Prop where
  result : t'.result = t.result
  session : Session.Shadows g ⟨t.story, t.view⟩ ⟨t'.story, t'.view⟩

end Turn

namespace Story

/-- What a host gets to that starts a story, ends every wait and pause, and picks these
    choices. -/
inductive Played (s : Story) (v : View) : List String → Turn → Prop
  /-- It starts the story. -/
  | start {t : Turn} (h : (s.start v).Driven t) : Played s v [] t
  /-- It picks a choice. -/
  | choose {ids : List String} {id : String} {t u : Turn} (h : Played s v ids t)
      (hs : t.story.status = .awaitChoice) (hu : (t.story.choose t.view id).Driven u) :
      Played s v (ids ++ [id]) u

/-- What starting a story and picking these choices leads to, if it never waits for anything
    else. -/
def play (s : Story) (v : View) (ids : List String) : Turn :=
  ids.foldl (fun t id => t.story.choose t.view id) (s.start v)

end Story

/-! ## Calls and their shadows -/

namespace Story

variable {s : Story}

/-- Going on ends a wait, and a pause. -/
theorem resume_of_waits (h : s.Waits) (v : View) : s.resume v = s.awake.go v := by
  cases h with
  | wait h | pause h => simp only [resume, h]

/-- A pause is over when as much time has elapsed as was left. -/
theorem update_of_le {x elapsed : Float} (h : s.status = .awaitDuration x)
    (helapsed : s.remaining ≤ elapsed) (v : View) : s.update v elapsed = s.awake.go v := by
  simp only [update, h, if_neg (Number.not_lt_sub helapsed)]

/-- What a story does when it has nothing to do is no pause. -/
theorem not_pauses_idle (h : s.status = .finished ∨ s.status = .awaitChoice) (v : View) :
    ¬ (s.idle v).Pauses := by
  rintro (hwait | ⟨x, hpause⟩)
  · rcases h with h | h <;> cases h.symm.trans (Except.ok.inj hwait)
  · rcases h with h | h <;> cases h.symm.trans (Except.ok.inj hpause)

/-- A turn that refuses a request does not pause. -/
theorem not_pauses_refuse (s : Story) (v : View) (e : StoryError) : ¬ (s.refuse v e).Pauses := by
  rintro (hwait | ⟨x, hpause⟩)
  · cases hwait
  · cases hpause

end Story

namespace Session

variable {g : Graph} {s s' : Session} {t u : Turn}

/-- A call that leads to a wait or a pause got to where the story waits. -/
theorem Ends.of_pauses (h : s.Ends t) (ht : t.Pauses) :
    t = ⟨.ok s.story.status, s.story, s.view⟩ ∧ s.story.Waits := by
  cases h with
  | settled =>
    rcases ht with hwait | ⟨x, hpause⟩
    · exact ⟨rfl, .wait (Except.ok.inj hwait)⟩
    · exact ⟨rfl, .pause (Except.ok.inj hpause)⟩
  | failed | runaway => rcases ht with hwait | ⟨x, hpause⟩ <;> contradiction

/-- When a story waits for a choice, it settles. -/
theorem settles_of_awaitChoice (s : Session) (r : Request)
    (h : (s.turn r).story.status = .awaitChoice) : (s.turn r).Settles := by
  have hidle {story : Story} {v : View} (h : story.status = .awaitChoice) :
      (story.idle v).Settles := ⟨Story.not_pauses_idle (.inr h) v, nofun⟩
  rcases s.turn_cases r with ⟨story, view, ns, m, -, -, hends⟩ | hrests
  · generalize s.turn r = t at h hends
    cases hends with
    | settled => exact hidle h
    | failed | runaway => cases h
  · generalize s.turn r = t at h hrests
    cases hrests with
    | idle | set => exact hidle h
    | refuse he =>
      refine ⟨Story.not_pauses_refuse _ _ _, fun limit hlimit => ?_⟩
      cases hlimit
      exact he .runaway
    | count | start => cases h

namespace Shadows

/-- A session that waits or pauses goes on from the place of its shadow. -/
theorem awake (h : Shadows g s s') (hs : s.story.Waits) : Shadows g ⟨s.story.awake, s.view⟩ s' := by
  have hadvance : s.story.status.unpaused = .advance := by
    cases hs with
    | wait hs | pause hs => rw [hs]; rfl
  exact { h with status := h.status.trans hadvance }

/-- Both stories start at a block. -/
theorem start (h : Shadows g s s') (id : String) (v : View) :
    Shadows g ⟨Story.awake { s.story with stack := [⟨id, 0⟩] }, v⟩
      ⟨Story.awake { s'.story with stack := [⟨id, 0⟩] }, v⟩ :=
  { h with view := rfl, status := rfl, stack := .cons (Frame.shadows_start g id) .nil }

/-- Both stories go on in the block of a choice. -/
theorem enter (h : Shadows g s s') (id : String) (v : View) :
    Shadows g ⟨s.story.enter id, v⟩ ⟨s'.story.enter id, v⟩ :=
  { h with view := rfl, status := rfl, stack := .cons (Frame.shadows_start g id) h.stack }

/-- Where a call settles, a call of the shadow returns the same. -/
theorem ends (h : Shadows g s s') (hends : s.Ends t) (ht : t.Settles) :
    ∃ t', s'.Ends t' ∧ t.Shadows g t' := by
  cases hends with
  | settled hs =>
    have hstatus : s'.story.status = s.story.status := by
      rw [h.status]
      cases hstatus : s.story.status with
      | advance | awaitChoice | finished => rfl
      | awaitResume => exact absurd (.inl (congrArg Except.ok hstatus)) ht.1
      | awaitDuration x => exact absurd (.inr ⟨x, congrArg Except.ok hstatus⟩) ht.1
    exact ⟨_, .settled (hstatus ▸ hs), congrArg Except.ok hstatus, h⟩
  | failed hfails => exact ⟨_, .failed (h.fails hfails), rfl, h.stop⟩
  | runaway => exact absurd rfl (ht.2 _)

/-- A call that carries out nodes gets to where the course of the shadow gets. -/
theorem go_ends {story : Story} {v : View} (h : Shadows g ⟨story, v⟩ s')
    (hs : story.status = .advance) :
    ∃ ns m m', Course s' ns m' ∧ Shadows g m m' ∧ m.Ends (story.go v) := by
  obtain ⟨ns, m, hcourse, -, hends⟩ := Story.run_course hs v story.maxSteps
  obtain ⟨m', hcourse', hm⟩ := h.course hcourse
  exact ⟨_, m, m', hcourse', hm, hends⟩

/-- The courses of all calls up to where the story settles are one course of the shadow. -/
theorem driven (h : Shadows g s s') (hends : s.Ends t) (hdriven : t.Driven u) (hu : u.Settles) :
    ∃ ns m' u', Course s' ns m' ∧ m'.Ends u' ∧ u.Shadows g u' := by
  induction hdriven generalizing s s' with
  | refl =>
    obtain ⟨t', hends', ht'⟩ := h.ends hends hu
    exact ⟨[], s', t', .refl, hends', ht'⟩
  | resume hpauses _ ih =>
    obtain ⟨rfl, hs⟩ := hends.of_pauses hpauses
    obtain ⟨ns, m, m', hcourse, hm, hends⟩ := (h.awake hs).go_ends rfl
    rw [← Story.resume_of_waits hs] at hends
    obtain ⟨ms, l', u', hrest, hl⟩ := ih hm hends hu
    exact ⟨_, l', u', hcourse.trans hrest, hl⟩
  | update hresult helapsed _ ih =>
    obtain ⟨rfl, hs⟩ := hends.of_pauses (.inr ⟨_, hresult⟩)
    obtain ⟨ns, m, m', hcourse, hm, hends⟩ := (h.awake hs).go_ends rfl
    rw [← Story.update_of_le (Except.ok.inj hresult) helapsed] at hends
    obtain ⟨ms, l', u', hrest, hl⟩ := ih hm hends hu
    exact ⟨_, l', u', hcourse.trans hrest, hl⟩

/-- One call of the shadow does what the calls up to where the story settles do. -/
theorem go {story story' : Story} {v v' : View} (h : Shadows g ⟨story, v⟩ ⟨story', v'⟩)
    (hs : story.status = .advance) (hdriven : (story.go v).Driven u) (hu : u.Settles)
    (hlimit : ∀ limit, (story'.go v').result ≠ .error (.runaway limit)) :
    u.Shadows g (story'.go v') := by
  obtain ⟨ns, m, m', hcourse, hm, hends⟩ := h.go_ends hs
  obtain ⟨ms, l', u', hrest, hends', hu'⟩ := hm.driven hends hdriven hu
  have hlimit' : ∀ limit, u'.result ≠ .error (.runaway limit) := hu'.result ▸ hu.2
  obtain ⟨ls, l, hcall, -, hends⟩ :=
    Story.run_course (h.advance hs) v' story'.maxSteps
  -- Both courses of the shadow end where it can do nothing more.
  obtain ⟨-, rfl⟩ := Course.eq_of_stuck (hcourse.trans hrest) (fun _ _ => hends'.stuck hlimit')
    hcall fun _ _ => hends.stuck hlimit
  rwa [hends'.eq hlimit' hends hlimit] at hu'

end Shadows
end Session

namespace Story

variable {g : Graph} {s s' : Story} {v : View} {ids : List String} {t u : Turn}

/-- A turn that is played out up to a choice settles. -/
theorem Played.settles (h : Played s v ids t) (ht : t.story.status = .awaitChoice) : t.Settles := by
  have hdriven {t u : Turn} (h : t.Driven u) (ht : t.story.status = .awaitChoice → t.Settles) :
      u.story.status = .awaitChoice → u.Settles := by
    induction h with
    | refl => exact ht
    | @resume t u _ _ ih =>
      exact ih (Session.settles_of_awaitChoice ⟨t.story, t.view⟩ .resume)
    | @update t u _ elapsed _ _ _ ih =>
      exact ih (Session.settles_of_awaitChoice ⟨t.story, t.view⟩ (.update elapsed))
  cases h with
  | start h => exact hdriven h (Session.settles_of_awaitChoice ⟨s, v⟩ .start) ht
  | @choose _ id t _ _ _ h =>
    exact hdriven h (Session.settles_of_awaitChoice ⟨t.story, t.view⟩ (.choose id)) ht

/-- Playing the shadow leads to the same turns, unless there is too much to do in one call. -/
theorem Played.shadows (h : Session.Shadows g ⟨s.stop, v⟩ ⟨s'.stop, v⟩) (hplayed : Played s v ids t)
    (ht : t.Settles)
    (hlimit : ∀ ids', ids' <+: ids → ∀ limit, (s'.play v ids').result ≠ .error (.runaway limit)) :
    t.Shadows g (s'.play v ids) := by
  -- By induction on the choices: before each of them both wait for it, and show the same.
  induction hplayed with
  | start hdriven =>
    have hlimit := hlimit [] (List.prefix_refl _)
    rw [play, List.foldl_nil] at hlimit ⊢
    have hcontains : s'.graph.contains Graph.main = s.graph.contains Graph.main := by
      obtain rfl : s.graph = g := h.graph
      have hgraph : s'.graph = s.graph.withoutPauses := h.graph'
      rw [hgraph, Graph.contains_withoutPauses]
    by_cases hmain : s.graph.contains Graph.main
    · rw [start_of_contains hmain] at hdriven
      rw [start_of_contains (hcontains.trans hmain)] at hlimit ⊢
      exact (h.start Graph.main v).go rfl hdriven ht hlimit
    · rw [Story.start, if_neg hmain] at hdriven
      rw [Story.start, if_neg (hcontains ▸ hmain)]
      obtain rfl := hdriven.eq_of_not_pauses (not_pauses_idle (.inl rfl) v)
      exact ⟨rfl, h⟩
  | @choose ids id t u hplayed hs hdriven ih =>
    have ht' := ih (hplayed.settles hs) fun ids' hids =>
      hlimit ids' (hids.trans (List.prefix_append _ _))
    have hlimit := hlimit (ids ++ [id]) (List.prefix_refl _)
    rw [play, List.foldl_append, ← play, List.foldl_cons, List.foldl_nil] at hlimit ⊢
    generalize s'.play v ids = t' at ht' hlimit ⊢
    obtain ⟨result', story', view'⟩ := t'
    obtain rfl : view' = t.view := ht'.session.view
    have hs' : story'.status = .awaitChoice :=
      ht'.session.status.trans (congrArg Signal.unpaused hs)
    by_cases hid : t.view.hasChoice id
    · rw [choose_of_hasChoice hs hid] at hdriven
      rw [choose_of_hasChoice hs' hid] at hlimit ⊢
      exact (ht'.session.enter id _).go rfl hdriven ht hlimit
    · rw [Story.choose, if_neg (Decidable.not_not.2 hs), if_neg hid] at hdriven
      rw [Story.choose, if_neg (Decidable.not_not.2 hs'), if_neg hid]
      obtain rfl := hdriven.eq_of_not_pauses (not_pauses_refuse _ _ _)
      exact ⟨rfl, ht'.session⟩

/-- Waits and pauses are transparent, whatever the view, the variables and the functions are,
    as long as the time that each pause takes can be told. A host that starts a story, ends
    every wait, ends every pause or lets it pass, and picks choices, gets to a result and a
    view. Without the waits and pauses, starting the story and picking these choices gets to
    the same result and the same view, unless it carries out too many nodes in one call. -/
theorem pauses_transparent {g : Graph} {bs : Bindings} {limit : Nat} {story : Story}
    (h : Story.ofGraph g bs limit = .ok story) {scope : Scope}
    (hlasts : ∀ e, Node.pause e ∈ g.nodes → ∃ x, e.eval scope bs = .ok x) (limit' : Nat) :
    ∃ story', Story.ofGraph g.withoutPauses bs limit' = .ok story' ∧
      ∀ v ids t, Played { story with scope } v ids t → t.Settles →
        (∀ ids', ids' <+: ids → ∀ n,
          (play { story' with scope } v ids').result ≠ .error (.runaway n)) →
        (play { story' with scope } v ids).result = t.result ∧
          (play { story' with scope } v ids).view = t.view := by
  obtain ⟨hproblems, rfl⟩ := eq_of_ofGraph h
  have hstory' : ofGraph g.withoutPauses bs limit' =
      .ok ⟨g.withoutPauses, ∅, bs, max limit' 1, [], .finished, 0⟩ :=
    if_pos (List.isEmpty_iff.2 (Graph.problems_withoutPauses hproblems))
  refine ⟨_, hstory', fun v ids t hplayed ht hlimit => ?_⟩
  -- Before the first call the story without pauses is a shadow of the other one.
  have hstop := Session.shadows_stop (s := ⟨g, scope, bs, max limit 1, [], .finished, 0⟩)
    (t := ⟨g.withoutPauses, scope, bs, max limit' 1, [], .finished, 0⟩) v rfl rfl rfl hlasts
  have hturn := hplayed.shadows hstop ht hlimit
  exact ⟨hturn.result, hturn.session.view⟩

/-- A tour with a wait and a pause is played to the same end without them. -/
theorem pauses_transparent_tour :
    ∃ story', Story.ofGraph Session.tour.withoutPauses ∅ 10 = .ok story' ∧
      ∃ t, Played Session.tourStory .empty ["tea"] t ∧ t.result = .ok .finished ∧
        (play story' .empty ["tea"]).result = .ok .finished ∧
        (play story' .empty ["tea"]).view = t.view := by
  have hlasts : ∀ e, Node.pause e ∈ Session.tour.nodes → ∃ x, e.eval ∅ ∅ = .ok x := by
    have hall : Session.tour.nodes.all fun
        | .pause e => (e.eval ∅ ∅).toBool
        | _ => true := by decide +kernel
    intro e he
    have hok : (e.eval ∅ ∅).toBool := List.all_eq_true.1 hall _ he
    cases hx : e.eval ∅ ∅ with
    | ok x => exact ⟨x, rfl⟩
    | error _ => rw [hx] at hok; cases hok
  obtain ⟨story', hstory', hplay⟩ := pauses_transparent Session.ofGraph_tour hlasts 10
  obtain ⟨-, rfl⟩ := eq_of_ofGraph hstory'
  have hpause : (Session.tourStory.start .empty).result = .ok (.awaitDuration 2) := by
    decide +kernel
  have hchoice : Played Session.tourStory .empty [] _ :=
    .start (.update hpause (by decide +kernel : _ ≤ (2 : Float)) .refl)
  obtain ⟨t, hplayed, hfinished⟩ :
      ∃ t, Played Session.tourStory .empty ["tea"] t ∧ t.result = .ok .finished :=
    ⟨_, .choose hchoice (by decide +kernel) (.resume (.inl (by decide +kernel)) .refl),
      by decide +kernel⟩
  have hsettles : t.Settles := by
    rw [Turn.Settles, Turn.Pauses, hfinished]
    exact ⟨nofun, nofun⟩
  obtain ⟨hresult, hview⟩ := hplay .empty ["tea"] t hplayed hsettles fun ids' hids n => by
    rcases List.prefix_cons_iff.1 hids with rfl | ⟨rest, rfl, hrest⟩
    · exact Turn.ne_error_of_ok (by decide +kernel) _
    · obtain rfl := List.prefix_nil.1 hrest
      exact Turn.ne_error_of_ok (by decide +kernel) _
  exact ⟨_, hstory', t, hplayed, hfinished, hresult.trans hfinished, hview⟩

end Story
end Dialogue
