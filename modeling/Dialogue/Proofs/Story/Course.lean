import Dialogue.Story.Session

/-!
# The course of a story

A story that goes on does one thing after the other: it leaves a block that is used up, it
carries out a node, or, with no block left, it is over (`Session.Tick`). Its *course* is
the sequence of these ticks together with the nodes that are carried out
(`Session.Course`). A tick depends on nothing but the session before it, so a course that
cannot go on is the only one (`Session.Course.eq_of_stuck`).

A call that carries out nodes follows the course up to where the story waits or is over,
or to a node that fails, unless it has carried out too many nodes before
(`Story.run_course`). What a call does before it carries out any node, or instead, is
`Story.serve_cases`.
-/

namespace Dialogue

/-! ## Paths -/

namespace Session

/-- Steps one after the other, each with the nodes that it carries out. -/
inductive Path (R : Session → List Node → Session → Prop) : Session → List Node → Session → Prop
  | refl {s : Session} : Path R s [] s
  | step {s t u : Session} {ns ms : List Node} :
      R s ns t → Path R t ms u → Path R s (ns ++ ms) u

namespace Path

variable {R R' : Session → List Node → Session → Prop} {s t u : Session} {ns ms : List Node}

/-- One step is a path. -/
theorem single (h : R s ns t) : Path R s ns t := by
  have hpath := Path.step h .refl
  rwa [List.append_nil] at hpath

/-- Two paths one after the other are a path. -/
theorem trans (h : Path R s ns t) (h' : Path R t ms u) : Path R s (ns ++ ms) u := by
  induction h with
  | refl => exact h'
  | step hstep _ ih =>
    rw [List.append_assoc]
    exact .step hstep (ih h')

/-- A path may be known to take less strict steps. -/
theorem mono (hR : ∀ s ns t, R s ns t → R' s ns t) (h : Path R s ns t) : Path R' s ns t := by
  induction h with
  | refl => exact .refl
  | step hstep _ ih => exact .step (hR _ _ _ hstep) ih

/-- What every step keeps, a path keeps. -/
theorem keeps {P : Session → Prop} (hR : ∀ s ns t, R s ns t → P s → P t) (h : Path R s ns t) :
    P s → P t := by
  induction h with
  | refl => exact id
  | step hstep _ ih => exact ih ∘ hR _ _ _ hstep

end Path

end Session

/-! ## Ticks -/

namespace Frame

/-- The node that comes next in a block, unless the block is used up. -/
def node? (g : Graph) (f : Frame) : Option Node := (g.block f.block)[f.next]?

/-- The place after that node. -/
def succ (f : Frame) : Frame := { f with next := f.next + 1 }

end Frame

namespace Story

/-- The story after a step. Without a jump or a return it goes on with `stack`. -/
def after (s : Story) (step : Step) (stack : List Frame) : Story :=
  { s with
    stack := follow step.flow stack
    remaining := step.signal.seconds?.getD s.remaining
    status := step.signal }

end Story

namespace Session

/-- What a story that goes on does next, with the nodes that it carries out. -/
inductive Tick : Session → List Node → Session → Prop
  /-- With no block left it is over. -/
  | finish {s : Story} {v : View} (hs : s.status = .advance) (hstack : s.stack = []) :
      Tick ⟨s, v⟩ [] ⟨s.stop, v⟩
  /-- It leaves a block that is used up. -/
  | leave {s : Story} {v : View} {f : Frame} {rest : List Frame} (hs : s.status = .advance)
      (hstack : s.stack = f :: rest) (hf : f.node? s.graph = none) :
      Tick ⟨s, v⟩ [] ⟨{ s with stack := rest }, v⟩
  /-- It carries out the next node. -/
  | carry {s : Story} {v v' : View} {f : Frame} {rest : List Frame} {n : Node} {step : Step}
      (hs : s.status = .advance) (hstack : s.stack = f :: rest)
      (hf : f.node? s.graph = some n) (hn : n.step s.scope s.bindings v = .ok (step, v')) :
      Tick ⟨s, v⟩ [n] ⟨s.after step (f.succ :: rest), v'⟩

/-- What happens while a story goes on, with the nodes that are carried out. -/
abbrev Course : Session → List Node → Session → Prop := Path Tick

/-- The next thing to do is to carry out this node. -/
def Due (s : Session) (n : Node) : Prop :=
  s.story.status = .advance ∧
    ∃ f rest, s.story.stack = f :: rest ∧ f.node? s.story.graph = some n

/-- The node that comes next cannot be carried out. -/
def Fails (s : Session) (e : StoryError) : Prop :=
  ∃ n, s.Due n ∧ n.step s.story.scope s.story.bindings s.view = .error e

/-- What a call returns that gets to here and not further. -/
inductive Ends (s : Session) : Turn → Prop
  /-- The story waits or is over. -/
  | settled (h : s.story.status ≠ .advance) : Ends s ⟨.ok s.story.status, s.story, s.view⟩
  /-- A node fails, which stops the story. -/
  | failed {e : StoryError} (h : s.Fails e) : Ends s ⟨.error e, s.story.stop, s.view⟩
  /-- A node is one too many, which stops the story. -/
  | runaway {n : Node} (h : s.Due n) :
      Ends s ⟨.error (.runaway s.story.maxSteps), s.story.stop, s.view⟩

variable {s t u : Session} {ns ms : List Node}

/-- A story that ticks goes on. -/
theorem Tick.status (h : Tick s ns t) : s.story.status = .advance := by
  cases h <;> assumption

/-- The tick of a session, if there is one. -/
def tick? (s : Session) : Option (List Node × Session) :=
  match s.story.status, s.story.stack with
  | .advance, [] => some ([], ⟨s.story.stop, s.view⟩)
  | .advance, f :: rest =>
    match f.node? s.story.graph with
    | none => some ([], ⟨{ s.story with stack := rest }, s.view⟩)
    | some n =>
      match n.step s.story.scope s.story.bindings s.view with
      | .ok (step, v) => some ([n], ⟨s.story.after step (f.succ :: rest), v⟩)
      | .error _ => none
  | _, _ => none

/-- A tick is the one that can be computed. -/
theorem Tick.tick? (h : Tick s ns t) : s.tick? = some (ns, t) := by
  cases h with
  | finish hs hstack => simp only [Session.tick?, hs, hstack]
  | leave hs hstack hf => simp only [Session.tick?, hs, hstack, hf]
  | carry hs hstack hf hn => simp only [Session.tick?, hs, hstack, hf, hn]

/-- There is one tick at most. -/
theorem Tick.deterministic (h : Tick s ns t) (h' : Tick s ms u) : ns = ms ∧ t = u :=
  Prod.mk.inj (Option.some.inj (h.tick?.symm.trans h'.tick?))

/-- A call that returns leaves nothing to do, unless there was too much to do. -/
theorem Ends.stuck {r : Turn} (h : s.Ends r) (hr : ∀ limit, r.result ≠ .error (.runaway limit)) :
    ¬ Tick s ns t := by
  intro htick
  cases h with
  | settled hs => exact hs htick.status
  | failed hfails =>
    obtain ⟨n, ⟨hs, f, rest, hstack, hf⟩, hn⟩ := hfails
    have hnone : s.tick? = none := by simp only [Session.tick?, hs, hstack, hf, hn]
    cases htick.tick?.symm.trans hnone
  | runaway => exact hr _ rfl

/-- There is one error at most. -/
theorem Fails.eq {e e' : StoryError} (h : s.Fails e) (h' : s.Fails e') : e = e' := by
  obtain ⟨n, ⟨-, f, rest, hstack, hf⟩, hn⟩ := h
  obtain ⟨n', ⟨-, f', rest', hstack', hf'⟩, hn'⟩ := h'
  cases hstack.symm.trans hstack'
  cases hf.symm.trans hf'
  exact Except.error.inj (hn.symm.trans hn')

/-- Two calls that get to the same place return the same, unless there was too much to do. -/
theorem Ends.eq {r r' : Turn} (h : s.Ends r) (hr : ∀ limit, r.result ≠ .error (.runaway limit))
    (h' : s.Ends r') (hr' : ∀ limit, r'.result ≠ .error (.runaway limit)) : r = r' := by
  cases h with
  | runaway => exact absurd rfl (hr _)
  | settled hs =>
    cases h' with
    | settled => rfl
    | failed hfails => exact absurd hfails.choose_spec.1.1 hs
    | runaway => exact absurd rfl (hr' _)
  | failed hfails =>
    cases h' with
    | settled hs => exact absurd hfails.choose_spec.1.1 hs
    | failed hfails' => rw [hfails.eq hfails']
    | runaway => exact absurd rfl (hr' _)

/-- Two courses that cannot go on are the same. -/
theorem Course.eq_of_stuck (h : Course s ns t) (ht : ∀ ls w, ¬ Tick t ls w)
    (h' : Course s ms u) (hu : ∀ ls w, ¬ Tick u ls w) : ns = ms ∧ t = u := by
  induction h generalizing ms with
  | refl =>
    cases h' with
    | refl => exact ⟨rfl, rfl⟩
    | step htick => exact absurd htick (ht _ _)
  | step htick _ ih =>
    cases h' with
    | refl => exact absurd htick (hu _ _)
    | step htick' hrest =>
      obtain ⟨rfl, rfl⟩ := htick.deterministic htick'
      obtain ⟨rfl, rfl⟩ := ih ht hrest
      exact ⟨rfl, rfl⟩

/-- Blocks that are used up are left one after the other. -/
theorem course_of_used {s : Story} {v : View} {used rest : List Frame} (hs : s.status = .advance)
    (hstack : s.stack = used ++ rest) (hused : ∀ f ∈ used, f.node? s.graph = none) :
    Course ⟨s, v⟩ [] ⟨{ s with stack := rest }, v⟩ := by
  induction used generalizing s with
  | nil =>
    rw [List.nil_append] at hstack
    subst hstack
    exact .refl
  | cons f used ih =>
    have hleave : Tick ⟨s, v⟩ [] ⟨{ s with stack := used ++ rest }, v⟩ :=
      .leave hs hstack (hused f List.mem_cons_self)
    exact .step hleave (ih hs rfl fun g hg => hused g (List.mem_cons_of_mem _ hg))

end Session

/-! ## Calls -/

/-- A call that returns a signal does not return an error. -/
theorem Turn.ne_error_of_ok {t : Turn} (h : t.result.toBool) (e : StoryError) :
    t.result ≠ .error e := by
  intro he
  rw [he] at h
  cases h

/-- An error of a node, or of too many nodes, which stops the story. The other errors refuse
    a call. -/
inductive StoryError.Stops : StoryError → Prop
  /-- An expression has no value. -/
  | eval {e : EvalError} : Stops (.eval e)
  /-- A choice is awaited, but none is on offer. -/
  | noChoices : Stops .noChoices
  /-- So many nodes were carried out. -/
  | runaway {steps : Nat} : Stops (.runaway steps)

namespace Story

open Session (Course Tick Due)

variable {g : Graph} {stack stack' : List Frame} {n : Node}

/-- The next node is that of the first block which is not used up. -/
theorem nextNode?_eq_some (h : nextNode? g stack = some (n, stack')) :
    ∃ used f rest, stack = used ++ f :: rest ∧ (∀ u ∈ used, u.node? g = none) ∧
      f.node? g = some n ∧ stack' = f.succ :: rest := by
  induction stack with
  | nil => cases h
  | cons f rest ih =>
    rw [nextNode?] at h
    split at h
    · rename_i node hnode
      cases h
      exact ⟨[], f, rest, rfl, nofun, hnode, rfl⟩
    · rename_i hnode
      obtain ⟨used, f', rest', rfl, hused, hf', rfl⟩ := ih h
      exact ⟨f :: used, f', rest', rfl, List.forall_mem_cons.2 ⟨hnode, hused⟩, hf', rfl⟩

/-- There is no next node if all blocks are used up. -/
theorem nextNode?_eq_none (h : nextNode? g stack = none) : ∀ f ∈ stack, f.node? g = none := by
  induction stack with
  | nil => exact nofun
  | cons f rest ih =>
    rw [nextNode?] at h
    split at h
    · cases h
    · rename_i hnode
      exact List.forall_mem_cons.2 ⟨hnode, ih h⟩

variable {s : Story}

/-- A story without a next node is over. -/
theorem course_of_none (hs : s.status = .advance) (v : View)
    (h : nextNode? s.graph s.stack = none) : Course ⟨s, v⟩ [] ⟨s.stop, v⟩ := by
  have hused : Course ⟨s, v⟩ [] ⟨{ s with stack := [] }, v⟩ :=
    Session.course_of_used hs (List.append_nil _).symm (nextNode?_eq_none h)
  exact hused.trans (.single (.finish hs rfl))

/-- A story with a next node gets to the place of that node. -/
theorem course_of_some (hs : s.status = .advance) (v : View)
    (h : nextNode? s.graph s.stack = some (n, stack')) :
    ∃ f rest, stack' = f.succ :: rest ∧ f.node? s.graph = some n ∧
      Course ⟨s, v⟩ [] ⟨{ s with stack := f :: rest }, v⟩ := by
  obtain ⟨used, f, rest, hstack, hused, hf, rfl⟩ := nextNode?_eq_some h
  exact ⟨f, rest, rfl, hf, Session.course_of_used hs hstack hused⟩

/-- A story that carries out nodes follows its course to where it waits, is over or fails, or
    up to a node that is one too many. -/
theorem run_course (hs : s.status = .advance) (v : View) (steps : Nat) :
    ∃ ns m, Course ⟨s, v⟩ ns m ∧ ns.length ≤ steps ∧ m.Ends (s.run v steps) := by
  induction steps generalizing s v with
  | zero =>
    rw [run]
    split
    · rename_i hnext
      exact ⟨[], _, course_of_none hs v hnext, Nat.zero_le _, .settled nofun⟩
    · rename_i n stack' hnext
      obtain ⟨f, rest, -, hf, hcourse⟩ := course_of_some hs v hnext
      exact ⟨[], _, hcourse, Nat.zero_le _, .runaway ⟨hs, f, rest, rfl, hf⟩⟩
  | succ steps ih =>
    rw [run]
    split
    · rename_i hnext
      exact ⟨[], _, course_of_none hs v hnext, Nat.zero_le _, .settled nofun⟩
    · rename_i n stack' hnext
      obtain ⟨f, rest, rfl, hf, hcourse⟩ := course_of_some hs v hnext
      dsimp only
      split
      · rename_i e he
        exact ⟨[], _, hcourse, Nat.zero_le _, .failed ⟨n, ⟨hs, f, rest, rfl, hf⟩, he⟩⟩
      · rename_i step v' hstep
        have hcarry : Course ⟨s, v⟩ [n] ⟨s.after step (f.succ :: rest), v'⟩ :=
          hcourse.trans (.single (.carry hs rfl hf hstep))
        split
        · rename_i hsignal
          -- The story goes on as it is after the step, with one node less.
          have hafter : ({ s with
              stack := follow step.flow (f.succ :: rest)
              remaining := step.signal.seconds?.getD s.remaining } : Story) =
              s.after step (f.succ :: rest) := by
            simp only [after, hsignal, hs]
          rw [hafter]
          obtain ⟨ns, m, hrest, hlength, hends⟩ :=
            ih (s := s.after step (f.succ :: rest)) hsignal v'
          exact ⟨n :: ns, m, hcarry.trans hrest, Nat.succ_le_succ hlength, hends⟩
        · rename_i hsignal
          exact ⟨[n], _, hcarry, Nat.succ_le_succ (Nat.zero_le _), .settled hsignal⟩

/-- What a story waits for until it is resumed, or until a pause is over. -/
inductive Waits (s : Story) : Prop
  /-- It waits to be resumed. -/
  | wait (h : s.status = .awaitResume)
  /-- It pauses. -/
  | pause {t : Float} (h : s.status = .awaitDuration t)

/-- The story and the view that a call goes on with. -/
inductive Opens (s : Story) (v : View) : Request → Story → View → Prop
  /-- The story starts at the main block. -/
  | start (h : s.graph.contains Graph.main) :
      Opens s v .start (awake { s with stack := [⟨Graph.main, 0⟩] }) v
  /-- The story starts at a block. -/
  | startAt {id : String} (h : s.graph.contains id) :
      Opens s v (.startAt id) (awake { s with stack := [⟨id, 0⟩] }) v
  /-- The story waits for nothing. -/
  | advance (h : s.status = .advance) : Opens s v .advance s v
  /-- A wait or a pause is cut short. -/
  | resume (h : s.Waits) : Opens s v .resume s.awake v
  /-- A pause is over. -/
  | update {t elapsed : Float} (h : s.status = .awaitDuration t)
      (hleft : ¬ 0 < s.remaining - elapsed) : Opens s v (.update elapsed) s.awake v
  /-- A choice is picked, and its block is entered. -/
  | choose {id : String} (h : s.status = .awaitChoice) (hid : v.hasChoice id) :
      Opens s v (.choose id) (s.enter id) (v.clear .choices)

/-- A story that is opened goes on. -/
theorem Opens.status {v v' : View} {r : Request} {s' : Story} (h : s.Opens v r s' v') :
    s'.status = .advance := by
  cases h with
  | advance h => exact h
  | start | startAt | resume | update | choose => rfl

/-- What a call that carries out no node may lead to. -/
inductive Rests (s : Story) (v : View) : Request → Turn → Prop
  /-- Nothing happens. -/
  | idle {r : Request} : Rests s v r (s.idle v)
  /-- The call is refused. -/
  | refuse {r : Request} {e : StoryError} (h : ¬ e.Stops) : Rests s v r (s.refuse v e)
  /-- Some time of a pause is over. -/
  | count {t elapsed : Float} (h : s.status = .awaitDuration t)
      (hleft : 0 < s.remaining - elapsed) :
      Rests s v (.update elapsed)
        ({ s with
            remaining := s.remaining - elapsed
            status := .awaitDuration (s.remaining - elapsed) }.idle v)
  /-- A variable gets a value. -/
  | set {name : String} {value : Value} {scope : Scope} (h : s.scope.set name value = .ok scope) :
      Rests s v (.set name value) ({ s with scope }.idle v)
  /-- There is no main block to start at. -/
  | start (h : ¬ s.graph.contains Graph.main) : Rests s v .start (s.stop.idle v)

/-- A story is made of a graph without problems only, and it is over at first. -/
theorem eq_of_ofGraph {bs : Bindings} {limit : Nat} (h : ofGraph g bs limit = .ok s) :
    g.problems = [] ∧ s = ⟨g, ∅, bs, max limit 1, [], .finished, 0⟩ := by
  rw [ofGraph] at h
  split at h
  · rename_i hproblems
    exact ⟨List.isEmpty_iff.1 hproblems, (Except.ok.inj h).symm⟩
  · cases h

/-- With a main block, starting goes on at it. -/
theorem start_of_contains (h : s.graph.contains Graph.main) (v : View) :
    s.start v = (awake { s with stack := [⟨Graph.main, 0⟩] }).go v := by
  rw [start, if_pos h, startAt, if_pos h]

/-- Picking a choice on offer goes on at its block. -/
theorem choose_of_hasChoice (h : s.status = .awaitChoice) {v : View} {id : String}
    (hid : v.hasChoice id) :
    s.choose v id = (s.enter id).go (v.clear .choices) := by
  rw [choose, if_neg (Decidable.not_not.2 h), if_pos hid]

/-- A call goes on with the story, or it carries out no node. -/
theorem serve_cases (s : Story) (v : View) (r : Request) :
    (∃ s' v', s.Opens v r s' v' ∧ s.serve v r = s'.go v') ∨ s.Rests v r (s.serve v r) := by
  cases r with
  | start =>
    by_cases h : s.graph.contains Graph.main
    · exact .inl ⟨_, _, .start h, start_of_contains h v⟩
    · rw [serve, start, if_neg h]
      exact .inr (.start h)
  | startAt id =>
    rw [serve, startAt]
    split
    · rename_i h
      exact .inl ⟨_, _, .startAt h, rfl⟩
    · exact .inr (.refuse nofun)
  | advance =>
    rw [serve, advance]
    split
    · rename_i h
      exact .inl ⟨_, _, .advance h, rfl⟩
    · exact .inr .idle
  | resume =>
    rw [serve, resume]
    split
    · rename_i h
      exact .inl ⟨_, _, .resume (.wait h), rfl⟩
    · rename_i h
      exact .inl ⟨_, _, .resume (.pause h), rfl⟩
    · exact .inr (.refuse nofun)
    · exact .inr .idle
  | update elapsed =>
    rw [serve, update]
    split
    · rename_i h
      dsimp only
      split
      · rename_i hleft
        exact .inr (.count h hleft)
      · rename_i hleft
        exact .inl ⟨_, _, .update h hleft, rfl⟩
    · exact .inr .idle
  | choose id =>
    rw [serve, choose]
    split
    · exact .inr (.refuse nofun)
    · rename_i h
      split
      · rename_i hid
        exact .inl ⟨_, _, .choose (Decidable.not_not.1 h) hid, rfl⟩
      · exact .inr (.refuse nofun)
  | set name value =>
    rw [serve, setVariable]
    cases h : s.scope.set name value with
    | ok scope => exact .inr (.set h)
    | error e => exact .inr (.refuse nofun)

end Story

/-! ## Whole sessions -/

namespace Session

variable {s : Session}

/-- A call follows the course of the story from where it goes on, or it carries out no node. -/
theorem turn_cases (s : Session) (r : Request) :
    (∃ story view ns m, s.story.Opens s.view r story view ∧
      Course ⟨story, view⟩ ns m ∧ m.Ends (s.turn r)) ∨
    s.story.Rests s.view r (s.turn r) := by
  rcases s.story.serve_cases s.view r with ⟨story, view, hopens, hserve⟩ | hrests
  · obtain ⟨ns, m, hcourse, -, hends⟩ :=
      Story.run_course hopens.status view story.maxSteps
    rw [turn, hserve]
    exact .inl ⟨story, view, ns, m, hopens, hcourse, hends⟩
  · exact .inr hrests

/-- What is kept by ticks, by all that a host does, and when a story is stopped. -/
structure Kept (P : Session → Prop) : Prop where
  tick : ∀ {s ns t}, P s → Tick s ns t → P t
  stop : ∀ {s : Session}, P s → P ⟨s.story.stop, s.view⟩
  opens : ∀ {s : Session} {r story view}, P s → s.story.Opens s.view r story view →
    P ⟨story, view⟩
  rests : ∀ {s : Session} {r t}, P s → s.story.Rests s.view r t → P ⟨t.story, t.view⟩
  other : ∀ {s : Session} {a}, P s → (∀ r, a ≠ .call r) → P (s.act a)

namespace Kept

variable {P : Session → Prop}

/-- What every tick keeps is kept by a course. -/
theorem course (hP : Kept P) {t : Session} {ns : List Node} (h : P s) (hcourse : Course s ns t) :
    P t :=
  hcourse.keeps (fun _ _ _ htick hs => hP.tick hs htick) h

/-- What every tick keeps is kept up to where a call ends. -/
theorem ends (hP : Kept P) {t : Turn} (h : P s) (hends : s.Ends t) : P ⟨t.story, t.view⟩ := by
  cases hends with
  | settled => exact h
  | failed | runaway => exact hP.stop h

/-- What is kept by ticks and calls is kept by every action of the host. -/
theorem act (hP : Kept P) (h : P s) (a : Action) : P (s.act a) := by
  cases a with
  | call r =>
    rcases s.turn_cases r with ⟨story, view, ns, m, hopens, hcourse, hends⟩ | hrests
    · exact hP.ends (hP.course (hP.opens h hopens) hcourse) hends
    · exact hP.rests h hrests
  | rescope | rebind | clear | renew => exact hP.other h nofun

/-- What is kept by ticks and calls is kept by any number of actions. -/
theorem acts (hP : Kept P) (h : P s) (as : List Action) : P (s.acts as) := by
  induction as generalizing s with
  | nil => exact h
  | cons a as ih => exact ih (hP.act h a)

end Kept

/-- Where a call ends, the story does not go on by itself. -/
theorem Ends.waits {t : Turn} (h : s.Ends t) : t.story.status ≠ .advance := by
  cases h with
  | settled hs => exact hs
  | failed | runaway => exact nofun

/-- After a call the story waits or is over. -/
theorem act_waits (h : s.story.status ≠ .advance) (a : Action) :
    (s.act a).story.status ≠ .advance := by
  cases a with
  | call r =>
    rcases s.turn_cases r with ⟨story, view, ns, m, -, -, hends⟩ | hrests
    · exact hends.waits
    · change (s.turn r).story.status ≠ .advance
      generalize s.turn r = t at hrests
      cases hrests with
      | idle | refuse | set => exact h
      | count | start => exact nofun
  | rescope | rebind | clear | renew => exact h

/-- Between two calls the story waits or is over. -/
theorem acts_waits (h : s.story.status ≠ .advance) (as : List Action) :
    (s.acts as).story.status ≠ .advance := by
  induction as generalizing s with
  | nil => exact h
  | cons a as ih => exact ih (s.act_waits h a)

end Session
end Dialogue
