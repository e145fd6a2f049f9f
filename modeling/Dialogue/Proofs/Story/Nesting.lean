import Dialogue.Proofs.Story.Invariant

/-!
# Calls of blocks

Picking a choice calls a block: it is entered on top of the blocks that the story is in.
Whatever the host does then, short of starting over, and whatever the nodes do, short of
an error that stops the story, the blocks below stay as they are until the called block is
left (`Session.Move.above`). A block that called another one is *parked* directly after the
`choose` that it waited at (`Frame.Parked`), so that is where the story goes on, or in the
block below if nothing comes after the `choose` (`Frame.ResumesAt`).

The result is `Session.calls_nest`.
-/

namespace Dialogue

/-! ## Sessions that do not start over -/

/-- Does a call start the story over? -/
inductive Request.Starts : Request → Prop
  /-- At the main block. -/
  | start : Starts .start
  /-- At a block. -/
  | startAt {id : String} : Starts (.startAt id)

namespace Session

/-- One thing that happens in a session that does not start over, with the nodes that are
    carried out: the story goes on, or between two calls the host does something. -/
inductive Move : Session → List Node → Session → Prop
  /-- The story goes on. -/
  | tick {s t : Session} {ns : List Node} (h : Tick s ns t) : Move s ns t
  /-- A call makes the story go on. -/
  | opens {s : Session} {r : Request} {story : Story} {view : View}
      (hs : s.story.status ≠ .advance) (hr : ¬ r.Starts)
      (h : s.story.Opens s.view r story view) : Move s [] ⟨story, view⟩
  /-- A call carries out no node. -/
  | rests {s : Session} {r : Request} {t : Turn} (hs : s.story.status ≠ .advance)
      (hr : ¬ r.Starts) (h : s.story.Rests s.view r t) : Move s [] ⟨t.story, t.view⟩
  /-- The host does something else. -/
  | other {s : Session} {a : Action} (hs : s.story.status ≠ .advance)
      (ha : ∀ r, a ≠ .call r) : Move s [] (s.act a)

/-- What happens in a session that does not start over, with the nodes that are carried out. -/
abbrev Leads : Session → List Node → Session → Prop := Path Move

/-- None of the calls starts the story over, and no error stops it. -/
def Unbroken (s : Session) : List Action → Prop
  | [] => True
  | a :: as =>
    (∀ r, a = .call r → ¬ r.Starts ∧ ∀ e, (s.turn r).result = .error e → ¬ e.Stops) ∧
      (s.act a).Unbroken as

variable {s t u : Session} {ns ls : List Node}

/-- What is kept is kept by a move. -/
theorem Kept.move {P : Session → Prop} (hP : Kept P) (h : P s) (hmove : Move s ns t) : P t := by
  cases hmove with
  | tick htick => exact hP.tick h htick
  | opens _ _ hopens => exact hP.opens h hopens
  | rests _ _ hrests => exact hP.rests h hrests
  | other _ ha => exact hP.other h ha

/-- What is kept by a move is kept by any number of them. -/
theorem Kept.leads {P : Session → Prop} (hP : Kept P) (h : P s) (hleads : Leads s ns t) : P t :=
  hleads.keeps (fun _ _ _ hmove hs => hP.move hs hmove) h

/-- A course leads to where it gets. -/
theorem Course.leads (h : Course s ns t) : Leads s ns t := h.mono fun _ _ _ => .tick

/-- A call that goes on and is not stopped follows the course of the story. -/
theorem turn_leads {r : Request} {story : Story} {view : View} (hs : story.status = .advance)
    (h : s.turn r = story.go view) (hr : ∀ e, (s.turn r).result = .error e → ¬ e.Stops) :
    ∃ ns, Leads ⟨story, view⟩ ns (s.act (.call r)) := by
  obtain ⟨ns, m, hcourse, -, hends⟩ := Story.run_course hs view story.maxSteps
  change m.Ends (story.go view) at hends
  rw [h] at hr
  rw [act, h]
  generalize story.go view = turn at hr hends
  cases hends with
  | settled => exact ⟨ns, hcourse.leads⟩
  | failed hfails =>
    obtain ⟨n, -, hn⟩ := hfails
    exact absurd (Node.stops_of_step hn) (hr _ rfl)
  | runaway => exact absurd .runaway (hr _ rfl)

/-- An action that does not start over leads on from where the story was. -/
theorem act_leads (hs : s.story.status ≠ .advance) {a : Action} (h : s.Unbroken [a]) :
    ∃ ns, Leads s ns (s.act a) := by
  cases a with
  | call r =>
    obtain ⟨hr, hresult⟩ := h.1 r rfl
    rcases s.story.serve_cases s.view r with ⟨story, view, hopens, hserve⟩ | hrests
    · obtain ⟨ns, hleads⟩ := turn_leads hopens.status hserve hresult
      exact ⟨_, .step (.opens hs hr hopens) hleads⟩
    · exact ⟨_, .single (.rests hs hr hrests)⟩
  | rescope | rebind | clear | renew => exact ⟨_, .single (.other hs nofun)⟩

/-- What a host does that neither starts over nor gets the story stopped is a sequence of
    moves. -/
theorem acts_leads (hs : s.story.status ≠ .advance) {as : List Action} (h : s.Unbroken as) :
    ∃ ns, Leads s ns (s.acts as) := by
  induction as generalizing s with
  | nil => exact ⟨_, .refl⟩
  | cons a as ih =>
    obtain ⟨ns, hleads⟩ := act_leads hs ⟨h.1, trivial⟩
    obtain ⟨ms, hrest⟩ := ih (s.act_waits hs a) h.2
    exact ⟨_, hleads.trans hrest⟩

/-- A story that is over stays so, and carries out nothing, until it is started again. -/
theorem Move.of_finished (h : Move s ns t) (hs : s.story.status = .finished) :
    ns = [] ∧ t.story.status = .finished := by
  cases h with
  | tick htick => cases hs.symm.trans htick.status
  | opens _ hr hopens =>
    cases hopens with
    | start => exact absurd .start hr
    | startAt => exact absurd .startAt hr
    | advance h | update h | choose h => cases hs.symm.trans h
    | resume h => cases h with | wait h | pause h => cases hs.symm.trans h
  | rests _ hr hrests =>
    refine ⟨rfl, ?_⟩
    cases hrests with
    | idle | refuse | set => exact hs
    | count h => cases hs.symm.trans h
    | start => rfl
  | @other a _ ha =>
    refine ⟨rfl, ?_⟩
    cases a with
    | call r => exact absurd rfl (ha r)
    | rescope | rebind | clear | renew => exact hs

/-- A story that is over leads nowhere. -/
theorem Leads.of_finished (h : Leads s ns t) (hs : s.story.status = .finished) : ns = [] := by
  induction h with
  | refl => rfl
  | step hmove _ ih =>
    obtain ⟨rfl, ht⟩ := hmove.of_finished hs
    exact ih ht

/-! ## The blocks below -/

/-- A block is called, and the blocks `F` are below it. -/
def Above (F : List Frame) (s : Session) : Prop :=
  ∃ f rest, s.story.stack = f :: rest ∧ F <:+ rest

/-- The block directly above `F` is left. -/
inductive Returns (F : List Frame) : Session → List Node → Session → Prop
  /-- It is used up. -/
  | used {s t : Session} {f : Frame} (h : Tick s [] t) (hs : s.story.stack = f :: F)
      (hf : f.node? s.story.graph = none) (ht : t.story.stack = F) : Returns F s [] t
  /-- It returns. -/
  | leave {s t : Session} {f : Frame} (h : Tick s [.leave] t) (hs : s.story.stack = f :: F)
      (hf : f.node? s.story.graph = some .leave) (ht : t.story.stack = F) :
      Returns F s [.leave] t

/-- What happens in a session that does not start over, with `F` below all the time. -/
abbrev Inside (F : List Frame) : Session → List Node → Session → Prop :=
  Path fun s ns t => Move s ns t ∧ t.Above F

variable {F : List Frame}

/-- To return is a tick. -/
theorem Returns.tick (h : Returns F s ns t) : Tick s ns t := by
  cases h <;> assumption

/-- To return gets back to the blocks below. -/
theorem Returns.stack (h : Returns F s ns t) : t.story.stack = F := by
  cases h <;> assumption

/-- A story that leaves a block goes on. -/
theorem Returns.status (h : Returns F s ns t) : t.story.status = .advance := by
  cases h with
  | used h hs hf =>
    cases h with
    | finish _ hstack => cases hs.symm.trans hstack
    | leave hstatus => exact hstatus
  | leave h _ _ =>
    cases h with
    | carry _ _ _ hn => cases hn; rfl

/-- The blocks below stay as they are until the block above them is left. -/
theorem Move.above (h : Move s ns t) (hs : s.Above F) : t.Above F ∨ Returns F s ns t := by
  obtain ⟨f, rest, hstack, hF⟩ := hs
  -- What is below the block on top is above `F` still, unless it is `F`.
  have hrest : (∃ g rest', rest = g :: rest' ∧ F <:+ rest') ∨ rest = F := by
    cases rest with
    | nil => exact .inr (List.suffix_nil.1 hF).symm
    | cons g rest =>
      rcases List.suffix_cons_iff.1 hF with heq | hF
      · exact .inr heq.symm
      · exact .inl ⟨g, rest, rfl, hF⟩
  cases h with
  | tick htick =>
    cases htick with
    | finish _ hnil => cases hstack.symm.trans hnil
    | @leave s v f' rest' hstatus hstack' hf =>
      cases hstack.symm.trans hstack'
      refine hrest.imp_right ?_
      rintro rfl
      exact .used (.leave hstatus hstack hf) hstack hf rfl
    | @carry s v v' f' rest' n step hstatus hstack' hf hn =>
      cases hstack.symm.trans hstack'
      cases Node.step_goes hn with
      | on | jump | choose | wait | pause => exact .inl ⟨_, _, rfl, hF⟩
      | leave =>
        refine hrest.imp_right ?_
        rintro rfl
        exact .leave (.carry hstatus hstack hf hn) hstack hf rfl
  | opens _ hr hopens =>
    refine .inl ?_
    cases hopens with
    | start => exact absurd .start hr
    | startAt => exact absurd .startAt hr
    | advance | resume | update => exact ⟨f, rest, hstack, hF⟩
    | choose => exact ⟨_, _, rfl, hstack ▸ hF.trans (List.suffix_cons f rest)⟩
  | rests _ hr hrests =>
    refine .inl ?_
    cases hrests with
    | idle | refuse | count | set => exact ⟨f, rest, hstack, hF⟩
    | start => exact absurd .start hr
  | @other a _ ha =>
    refine .inl ?_
    cases a with
    | call r => exact absurd rfl (ha r)
    | rescope | rebind | clear | renew => exact ⟨f, rest, hstack, hF⟩

/-- A session stays above `F` until the block directly above `F` is left. -/
theorem Leads.above (h : Leads s ns t) (hs : s.Above F) :
    Inside F s ns t ∨ ∃ ls before ks out ms, Inside F s ls before ∧ Returns F before ks out ∧
      Leads out ms t ∧ ns = ls ++ (ks ++ ms) := by
  induction h with
  | refl => exact .inl .refl
  | @step s u t ns₁ ns₂ hmove hrest ih =>
    rcases hmove.above hs with hu | hreturns
    · rcases ih hu with hinside | ⟨ls, before, ks, out, ms, hinside, hreturns, hleads, rfl⟩
      · exact .inl (.step ⟨hmove, hu⟩ hinside)
      · exact .inr ⟨ns₁ ++ ls, before, ks, out, ms, .step ⟨hmove, hu⟩ hinside, hreturns, hleads,
          (List.append_assoc ..).symm⟩
    · exact .inr ⟨[], s, ns₁, u, ns₂, .refl, hreturns, hrest, rfl⟩

/-- What happens inside leads on. -/
theorem Inside.leads (h : Inside F s ns t) : Leads s ns t := h.mono fun _ _ _ hmove => hmove.1

/-- What happens inside stays above the blocks below. -/
theorem Inside.above (h : Inside F s ns t) (hs : s.Above F) : t.Above F :=
  h.keeps (fun _ _ _ hmove _ => hmove.2) hs

end Session

/-! ## Parked blocks -/

namespace Frame

/-- The place directly after a `choose`. -/
def Parked (g : Graph) (f : Frame) : Prop :=
  ∃ i, f.next = i + 1 ∧ (g.block f.block)[i]? = some .choose

/-- The node that a story goes on with in these blocks, the innermost first: the one directly
    after the `choose` or, if there is none, the one that it goes on with in the blocks
    below. -/
inductive ResumesAt (g : Graph) : List Frame → Node → Prop
  /-- Directly after the `choose`. -/
  | next {f : Frame} {rest : List Frame} {i : Nat} {n : Node} (hi : f.next = i + 1)
      (hchoose : (g.block f.block)[i]? = some .choose)
      (hn : (g.block f.block)[i + 1]? = some n) : ResumesAt g (f :: rest) n
  /-- In the blocks below, as the block ends with the `choose`. -/
  | caller {f : Frame} {rest : List Frame} {i : Nat} {n : Node} (hi : f.next = i + 1)
      (hchoose : (g.block f.block)[i]? = some .choose)
      (hend : (g.block f.block).length = i + 1) (hn : ResumesAt g rest n) :
      ResumesAt g (f :: rest) n

variable {g : Graph} {f : Frame} {rest : List Frame} {n : Node}

/-- A parked block goes on with the node directly after the `choose`. -/
theorem Parked.resumesAt (h : f.Parked g) (hn : f.node? g = some n) :
    ResumesAt g (f :: rest) n := by
  obtain ⟨i, hi, hchoose⟩ := h
  exact .next hi hchoose (by rwa [node?, hi] at hn)

/-- A parked block that is used up leaves it to the blocks below to go on. -/
theorem Parked.resumesAt_iff (h : f.Parked g) (hf : f.node? g = none) :
    ResumesAt g (f :: rest) n ↔ ResumesAt g rest n := by
  obtain ⟨i, hi, hchoose⟩ := h
  rw [node?, hi] at hf
  constructor
  · intro hn
    cases hn with
    | next hj _ hn =>
      cases hi.symm.trans hj
      cases hf.symm.trans hn
    | caller _ _ _ hn => exact hn
  · refine .caller hi hchoose (Nat.le_antisymm (List.getElem?_eq_none_iff.1 hf) ?_)
    exact (List.getElem?_eq_some_iff.1 hchoose).1

end Frame

namespace Session

/-- The blocks that called others are parked, and so is the one that waits for a choice. -/
structure Calling (g : Graph) (s : Session) : Prop where
  graph : s.story.graph = g
  called : ∀ f ∈ s.story.stack.tail, f.Parked g
  waits : s.story.status = .awaitChoice → ∀ f ∈ s.story.stack, f.Parked g

variable {g : Graph} {s t : Session} {ns : List Node}

/-- That a story only calls is kept. -/
theorem kept_calling : Kept (Calling g) where
  tick {s ns t} h htick := by
    cases htick with
    | finish => exact ⟨h.graph, nofun, nofun⟩
    | @leave s v f rest hs hstack _ =>
      have hrest := hstack ▸ h.called
      refine ⟨h.graph, fun f hf => hrest f (List.mem_of_mem_tail hf), fun hwaits => ?_⟩
      cases hs.symm.trans hwaits
    | @carry s v v' f rest n step hs hstack hf hn =>
      obtain rfl := h.graph
      have hrest := hstack ▸ h.called
      cases Node.step_goes hn with
      | on | jump | wait | pause => exact ⟨rfl, hrest, nofun⟩
      | leave => exact ⟨rfl, fun f hf => hrest f (List.mem_of_mem_tail hf), nofun⟩
      -- The story waits directly behind its `choose`, and that is where the choice calls from.
      | choose =>
        exact ⟨rfl, hrest, fun _ => List.forall_mem_cons.2 ⟨⟨f.next, rfl, hf⟩, hrest⟩⟩
  stop h := ⟨h.graph, nofun, nofun⟩
  opens h hopens := by
    cases hopens with
    | start | startAt => exact ⟨h.graph, nofun, nofun⟩
    | advance => exact h
    | resume | update => exact ⟨h.graph, h.called, nofun⟩
    | choose hs => exact ⟨h.graph, h.waits hs, nofun⟩
  rests h hrests := by
    cases hrests with
    | idle | refuse | set => exact ⟨h.graph, h.called, h.waits⟩
    | count => exact ⟨h.graph, h.called, nofun⟩
    | start => exact ⟨h.graph, nofun, nofun⟩
  other {s a} h ha := by
    cases a with
    | call r => exact absurd rfl (ha r)
    | rescope | rebind | clear | renew => exact ⟨h.graph, h.called, h.waits⟩

/-- A story that has not started calls nothing. -/
theorem calling_ofStory {bs : Bindings} {limit : Nat} {story : Story}
    (h : Story.ofGraph g bs limit = .ok story) : (ofStory story).Calling g := by
  obtain ⟨-, rfl⟩ := Story.eq_of_ofGraph h
  exact ⟨rfl, nofun, nofun⟩

/-- A story that goes on in parked blocks next carries out the node that they go on with. -/
theorem Leads.resumesAt {n : Node} (h : Leads s (n :: ns) t) (hs : s.story.status = .advance)
    (hparked : ∀ f ∈ s.story.stack, f.Parked s.story.graph) :
    Frame.ResumesAt s.story.graph s.story.stack n := by
  generalize hns : n :: ns = ls at h
  induction h with
  | refl => cases hns
  | step hmove hrest ih =>
    cases hmove with
    | opens hwaits | rests hwaits | other hwaits => exact absurd hs hwaits
    | tick htick =>
      cases htick with
      | finish => cases hns.trans (Leads.of_finished hrest rfl)
      | leave _ hstack hf =>
        rw [hstack] at hparked ⊢
        obtain ⟨hf', hparked⟩ := List.forall_mem_cons.1 hparked
        exact (hf'.resumesAt_iff hf).2 (ih hs hparked hns)
      | carry _ hstack hf _ =>
        rw [hstack] at hparked ⊢
        cases hns
        exact (List.forall_mem_cons.1 hparked).1.resumesAt hf

/-- A story that goes on in parked blocks gets to the node that they go on with or, if there
    is none, it is over. -/
theorem course_resumesAt {s : Story} (v : View) (hs : s.status = .advance)
    (hparked : ∀ f ∈ s.stack, f.Parked s.graph) :
    (∃ n m, Frame.ResumesAt s.graph s.stack n ∧ Course ⟨s, v⟩ [] m ∧ m.Due n) ∨
      (∀ n, ¬ Frame.ResumesAt s.graph s.stack n) ∧ Course ⟨s, v⟩ [] ⟨s.stop, v⟩ := by
  generalize hstack : s.stack = stack at hparked ⊢
  induction stack generalizing s with
  | nil => exact .inr ⟨nofun, .single (.finish hs hstack)⟩
  | cons f rest ih =>
    obtain ⟨hf, hrest⟩ := List.forall_mem_cons.1 hparked
    cases hn : f.node? s.graph with
    | some n => exact .inl ⟨n, _, hf.resumesAt hn, .refl, hs, f, rest, hstack, hn⟩
    | none =>
      have hleave : Tick ⟨s, v⟩ [] ⟨{ s with stack := rest }, v⟩ := .leave hs hstack hn
      rcases ih (s := { s with stack := rest }) hs rfl hrest with
        ⟨n, m, hn', hcourse, hdue⟩ | ⟨hnone, hcourse⟩
      · exact .inl ⟨n, m, (hf.resumesAt_iff hn).2 hn', .step hleave hcourse, hdue⟩
      · exact .inr ⟨fun n hn' => hnone n ((hf.resumesAt_iff hn).1 hn'), .step hleave hcourse⟩

/-- A story that goes on is over next just when it is in no block. -/
theorem Tick.finished_iff (h : Tick s ns t) : t.story.status = .finished ↔ s.story.stack = [] := by
  cases h with
  | finish _ hstack => exact iff_of_true rfl hstack
  | leave hs hstack _ => exact iff_of_false (hs ▸ nofun) (hstack ▸ nofun)
  | carry _ hstack _ hn =>
    refine iff_of_false ?_ (hstack ▸ nofun)
    cases Node.step_goes hn <;> exact nofun

/-! ## Calls -/

/-- The session that a choice is picked in, in the block of the choice. -/
def called (s : Session) (id : String) : Session :=
  ⟨s.story.enter id, s.view.clear .choices⟩

/-- Whatever a host did: when the story waits for a choice, picking one that is on offer
    enters its block on top of the others, and the story goes on there.

    * All that the host does next, short of starting over and of errors that stop the story,
      leads from there to where it gets.
    * Until the block that was entered is left, or the one that jumps have put in its place,
      the others stay below as they are.
    * When it is left, the next node is the one directly after the `choose` that the story
      waited at or, if that block is used up, the one where the blocks below go on in the
      same way; if they are all used up, the story is over.
    * The story is over just when it is in no block. -/
theorem calls_nest {g : Graph} {bs : Bindings} {limit : Nat} {story : Story}
    (h : Story.ofGraph g bs limit = .ok story) (actions : List Action) {s : Session}
    (hs : (ofStory story).acts actions = s) (hstatus : s.story.status = .awaitChoice)
    {id : String} (hid : s.view.hasChoice id) :
    s.turn (.choose id) = (s.called id).story.go (s.called id).view ∧
      (∀ as, s.Unbroken (.call (.choose id) :: as) →
        ∃ ns, Leads (s.called id) ns (s.acts (.call (.choose id) :: as))) ∧
      (∀ ns t, Leads (s.called id) ns t →
        (Inside s.story.stack (s.called id) ns t ∧ t.Above s.story.stack) ∨
          ∃ ls before ks out ms, Inside s.story.stack (s.called id) ls before ∧
            Returns s.story.stack before ks out ∧ Leads out ms t ∧ ns = ls ++ (ks ++ ms)) ∧
      (∀ ls before ks out, Inside s.story.stack (s.called id) ls before →
        Returns s.story.stack before ks out →
        (∀ n ns t, Leads out (n :: ns) t → Frame.ResumesAt g s.story.stack n) ∧
          ((∃ n m, Frame.ResumesAt g s.story.stack n ∧ Course out [] m ∧ m.Due n) ∨
            (∀ n, ¬ Frame.ResumesAt g s.story.stack n) ∧
              Course out [] ⟨out.story.stop, out.view⟩)) ∧
      ∀ ns t, Leads (s.called id) ns t →
        (t.story.status ≠ .advance → (t.story.status = .finished ↔ t.story.stack = [])) ∧
          ∀ ls u, Tick t ls u → (u.story.status = .finished ↔ t.story.stack = []) := by
  obtain ⟨hg, hstart, -⟩ := coherent_ofStory h
  have hcoherent := hs ▸ (kept_coherent hg).acts hstart actions
  have hcalling := hs ▸ kept_calling.acts (calling_ofStory h) actions
  obtain rfl := hcoherent.graph
  have hopens : s.story.Opens s.view (.choose id) _ _ := .choose hstatus hid
  have hturn : s.turn (.choose id) = (s.called id).story.go (s.called id).view :=
    Story.choose_of_hasChoice hstatus hid
  -- Entering the block puts it above those that the story waits in.
  have habove : (s.called id).Above s.story.stack := ⟨_, _, rfl, List.suffix_refl _⟩
  refine ⟨hturn, fun as has => ?_, fun ns t hleads => ?_,
    fun ls before ks out hinside hreturns => ?_, fun ns t hleads => ?_⟩
  · obtain ⟨ns, hcall⟩ := turn_leads rfl hturn (has.1 _ rfl).2
    obtain ⟨ms, hrest⟩ := acts_leads (s.act_waits (hstatus ▸ nofun) _) has.2
    exact ⟨_, hcall.trans hrest⟩
  · exact (Leads.above hleads habove).imp_left fun hinside => ⟨hinside, Inside.above hinside habove⟩
  · have hbefore := kept_calling.leads (kept_calling.opens hcalling hopens) (Inside.leads hinside)
    have hout := kept_calling.tick hbefore hreturns.tick
    have hparked := hcalling.waits hstatus
    rw [← hreturns.stack, ← hout.graph] at hparked ⊢
    exact ⟨fun n ns t hleads => hleads.resumesAt hreturns.status hparked,
      course_resumesAt out.view hreturns.status hparked⟩
  · have ht := (kept_coherent hg).leads (hcoherent.opens hopens) hleads
    exact ⟨ht.done, fun ls u htick => htick.finished_iff⟩

/-- A choice is entered and left, and the story goes on behind the `choose`. -/
theorem calls_nest_tour :
    ∃ s, (ofStory tourStory).acts [.call .start, .call (.update 2)] = s ∧
      s.story.status = .awaitChoice ∧ s.view.hasChoice "tea" ∧
      s.story.stack = [⟨Graph.main, 4⟩] ∧
      (∃ ns, Leads (s.called "tea") ns (s.acts [.call (.choose "tea"), .call .resume])) ∧
      ∃ before ks out m n, Returns s.story.stack before ks out ∧ Course out [] m ∧ m.Due n ∧
        Frame.ResumesAt tour s.story.stack n := by
  have hstatus : ((ofStory tourStory).acts
      [.call .start, .call (.update 2)]).story.status = .awaitChoice := by decide +kernel
  have hid : ((ofStory tourStory).acts
      [.call .start, .call (.update 2)]).view.hasChoice "tea" := by decide +kernel
  have hstack : ((ofStory tourStory).acts
      [.call .start, .call (.update 2)]).story.stack = [⟨Graph.main, 4⟩] := by decide +kernel
  obtain ⟨-, hleads, habove, hresumes, -⟩ :=
    calls_nest ofGraph_tour [.call .start, .call (.update 2)] rfl hstatus hid
  have hunbroken : ((ofStory tourStory).acts [.call .start, .call (.update 2)]).Unbroken
      [.call (.choose "tea"), .call .resume] := by
    refine ⟨?_, ?_, trivial⟩
    · rintro _ ⟨⟩
      exact ⟨nofun, fun e he => absurd he (Turn.ne_error_of_ok (by decide +kernel) e)⟩
    · rintro _ ⟨⟩
      exact ⟨nofun, fun e he => absurd he (Turn.ne_error_of_ok (by decide +kernel) e)⟩
  obtain ⟨ns, hns⟩ := hleads _ hunbroken
  refine ⟨_, rfl, hstatus, hid, hstack, ⟨ns, hns⟩, ?_⟩
  -- The story is over then, so the block of the choice has been left.
  rcases habove ns _ hns with ⟨-, f, rest, hnonempty, -⟩ | ⟨_, _, _, _, _, hinside, hreturns, -⟩
  · have hempty : (((ofStory tourStory).acts [.call .start, .call (.update 2)]).acts
        [.call (.choose "tea"), .call .resume]).story.stack = [] := by decide +kernel
    cases hempty.symm.trans hnonempty
  · rcases (hresumes _ _ _ _ hinside hreturns).2 with ⟨n, m, hn, hcourse, hdue⟩ | ⟨hnone, -⟩
    · exact ⟨_, _, _, m, n, hreturns, hcourse, hdue, hn⟩
    · rw [hstack] at hnone
      exact absurd (.next rfl rfl rfl) (hnone (.append none (.literal "Bye")))

end Session
end Dialogue
