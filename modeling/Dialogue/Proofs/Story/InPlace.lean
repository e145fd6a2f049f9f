import Dialogue.Proofs.Story.Invariant
import Dialogue.Story.InPlace

/-!
# What a call changes

A run in place follows the course of the story and does what `Story.run` says, and its log tells
how the view came about (`Program.run_closes`). So a call in place does what `Story.serve` says,
whether it runs the story (`Session.runs_of_opens`) or not (`Session.perform_of_not_opens`).

All that a call checks is checked before it changes anything, and all that a node evaluates is
evaluated before it changes the view: a call that returns an error was refused and changed nothing,
or it stopped the story behind the nodes that succeeded (`Session.errors_atomic`).
-/

namespace Dialogue

/-! ## Nodes -/

namespace Node

variable {s : Scope} {bs : Bindings} {v v' : View} {n : Node} {step : Step} {e : StoryError}

/-- Carrying out a node in place changes the view if it succeeds. -/
theorem perform_eq (n : Node) (s : Scope) (bs : Bindings) (v : View) :
    n.perform s bs v = match n.step s bs v with
      | .ok (step, v') => .ok step v'
      | .error e => .error e v := by
  cases n with
  | say _ text | append _ text | offer _ text | pause text =>
    simp only [Node.perform, Expr.evaluate, Node.step, Expr.value]
    cases text.eval s bs <;> rfl
  | choose =>
    obtain ⟨lines, choices⟩ := v
    cases choices <;> rfl
  | clear | jump | wait | leave => rfl

/-- A node fails if an expression has no value, or if no choice is on offer. -/
theorem error_of_perform (h : n.perform s bs v = .error e v') :
    (∃ error, e = .eval error) ∨ e = .noChoices := by
  rw [perform_eq] at h
  cases hstep : n.step s bs v with
  | ok result =>
    rw [hstep] at h
    cases h
  | error e' =>
    rw [hstep] at h
    cases h
    cases n with
    | say _ text | append _ text | offer _ text | pause text =>
      rw [Node.step, Expr.value] at hstep
      cases he : text.eval s bs with
      | ok _ => rw [he] at hstep; cases hstep
      | error _ => rw [he] at hstep; cases hstep; exact .inl ⟨_, rfl⟩
    | choose =>
      rw [Node.step] at hstep
      split at hstep
      · cases hstep
        exact .inr rfl
      · cases hstep
    | clear | jump | wait | leave => cases hstep

end Node

namespace Program

variable {s t : Stage} {α β : Type}

/-- A part that succeeds hands on its value and the stage it leaves. -/
theorem bind_of_ok {x : Program α} {a : α} (h : x s = .ok a t) (f : α → Program β) :
    (x >>= f) s = f a t := by
  simp only [bind, EStateM.bind, h]

/-- An error is passed on by what would come next. -/
theorem bind_of_error {x : Program α} {e : StoryError} (h : x s = .error e t)
    (f : α → Program β) : (x >>= f) s = .error e t := by
  simp only [bind, EStateM.bind, h]

/-- What succeeds is not caught. -/
theorem catch_of_ok {x : Program α} {a : α} (h : x s = .ok a t) (f : StoryError → Program α) :
    tryCatch x f s = .ok a t := by
  change EStateM.tryCatch x f s = _
  delta EStateM.tryCatch
  simp only [h]

/-- A part that fails leaves its changes to the handler. -/
theorem catch_of_error {x : Program α} {e : StoryError} (h : x s = .error e t)
    (f : StoryError → Program α) : tryCatch x f s = f e t := by
  change EStateM.tryCatch x f s = _
  delta EStateM.tryCatch
  simp only [h]
  rfl

/-- A node that succeeds changes the view, and is logged with its step. -/
theorem dispatch_of_ok {n : Node} {step : Step} {v : View}
    (h : n.step s.story.scope s.story.bindings s.view = .ok (step, v)) :
    dispatch n s = .ok step ⟨⟨s.story, v⟩, s.log ++ [⟨n, .ok step⟩]⟩ := by
  rw [dispatch, Node.perform_eq, h]

/-- A node that fails changes nothing, and is logged with its error. -/
theorem dispatch_of_error {n : Node} {e : StoryError}
    (h : n.step s.story.scope s.story.bindings s.view = .error e) :
    dispatch n s = .error e ⟨s.toSession, s.log ++ [⟨n, .error e⟩]⟩ := by
  rw [dispatch, Node.perform_eq, h]

/-- With no node left the story is in no block. -/
theorem nextNode?_of_none (h : Story.nextNode? s.story.graph s.story.stack = none) :
    nextNode? s = .ok none { s with story.stack := [] } := by
  rw [nextNode?, bind_of_ok (x := get) rfl, h]
  rfl

/-- Finding the next node moves on from it. -/
theorem nextNode?_of_some {n : Node} {stack : List Frame}
    (h : Story.nextNode? s.story.graph s.story.stack = some (n, stack)) :
    nextNode? s = .ok (some n) { s with story.stack := stack } := by
  rw [nextNode?, bind_of_ok (x := get) rfl, h]
  rfl

/-- A run without a next node is over. -/
theorem run_of_none (h : Story.nextNode? s.story.graph s.story.stack = none) (steps : Nat) :
    run steps s = .ok .finished { s with story := s.story.stop } := by
  rw [run.eq_def, bind_of_ok (nextNode?_of_none h)]
  rfl

/-- A run that has no step left for the next node is a runaway. -/
theorem run_zero {n : Node} {stack : List Frame}
    (h : Story.nextNode? s.story.graph s.story.stack = some (n, stack)) :
    run 0 s = .error (.runaway s.story.maxSteps) { s with story := s.story.stop } := by
  rw [run.eq_def, bind_of_ok (nextNode?_of_some h)]
  rfl

/-- A run ends with the node that fails. -/
theorem run_of_error {n : Node} {stack : List Frame} {e : StoryError} {steps : Nat}
    (h : Story.nextNode? s.story.graph s.story.stack = some (n, stack))
    (hn : n.step s.story.scope s.story.bindings s.view = .error e) :
    run (steps + 1) s = .error e ⟨⟨s.story.stop, s.view⟩, s.log ++ [⟨n, .error e⟩]⟩ := by
  have hdispatch : dispatch n { s with story.stack := stack } = _ := dispatch_of_error hn
  rw [run.eq_def, bind_of_ok (nextNode?_of_some h)]
  refine bind_of_error ?_ _
  refine catch_of_error hdispatch _

/-- A run goes on from a node as its step says. -/
theorem run_of_ok {n : Node} {stack : List Frame} {step : Step} {v : View} {steps : Nat}
    (h : Story.nextNode? s.story.graph s.story.stack = some (n, stack))
    (hn : n.step s.story.scope s.story.bindings s.view = .ok (step, v)) :
    run (steps + 1) s =
      let story := { s.story with
        stack := Story.follow step.flow stack
        remaining := step.signal.seconds?.getD s.story.remaining }
      let log := s.log ++ [⟨n, .ok step⟩]
      if step.signal = .advance then run steps ⟨⟨story, v⟩, log⟩
      else .ok step.signal ⟨⟨{ story with status := step.signal }, v⟩, log⟩ := by
  have hdispatch : dispatch n { s with story.stack := stack } = _ := dispatch_of_ok hn
  rw [run.eq_def, bind_of_ok (nextNode?_of_some h)]
  refine (bind_of_ok (catch_of_ok hdispatch _) _).trans ?_
  obtain ⟨signal, flow⟩ := step
  cases signal <;> rfl

end Program

/-! ## What a run gets to -/

namespace StoryError

/-- An error of a call that the story refuses. -/
inductive Refuses : StoryError → Prop
  /-- There is no such block to start at. -/
  | unknownBlock {id : String} : Refuses (.unknownBlock id)
  /-- A choice must be picked first. -/
  | awaitingChoice : Refuses .awaitingChoice
  /-- No choice can be picked now. -/
  | notAwaitingChoice : Refuses .notAwaitingChoice
  /-- The choice is not on offer. -/
  | unknownChoice {id : String} : Refuses (.unknownChoice id)
  /-- A variable would change its category. -/
  | scope {change : TypeChange} : Refuses (.scope change)

/-- An error that stops a story does not refuse the call. -/
theorem Stops.not_refuses {e : StoryError} (h : e.Stops) : ¬ e.Refuses := by
  cases h <;> exact nofun

end StoryError

/-- What logged nodes make of a view, one after the other. -/
inductive View.Shows (s : Scope) (bs : Bindings) : View → List Entry → View → Prop
  /-- No node changes nothing. -/
  | refl {v : View} : Shows s bs v [] v
  /-- A node is carried out before the others. -/
  | carry {v v' v'' : View} {n : Node} {step : Step} {es : List Entry}
      (hn : n.perform s bs v = .ok step v') (hrest : Shows s bs v' es v'') :
      Shows s bs v (⟨n, .ok step⟩ :: es) v''

/-- What a call returns, and what it leaves behind. -/
def Turn.leaving (t : Turn) (log : List Entry) : EStateM.Result StoryError Stage Signal :=
  match t.result with
  | .ok signal => .ok signal ⟨⟨t.story, t.view⟩, log⟩
  | .error e => .error e ⟨⟨t.story, t.view⟩, log⟩

namespace Session

variable {s t : Session} {ns : List Node}

/-- A tick changes nothing of the story that stopping would not change. -/
theorem Tick.stop_eq (h : Tick s ns t) : t.story.stop = s.story.stop := by
  cases h <;> rfl

/-- Once it is stopped, a story looks like it did before its course. -/
theorem Course.stop_eq (h : Course s ns t) : t.story.stop = s.story.stop :=
  h.keeps (P := fun t => t.story.stop = s.story.stop) (fun _ _ _ htick hs => htick.stop_eq.trans hs)
    rfl

/-- What a run of at most so many nodes returns that gets to `s` with the nodes of `es`, and what
    it logs. -/
inductive Closes (s : Session) (steps : Nat) (es : List Entry) : Turn → List Entry → Prop
  /-- The story waits or is over. -/
  | settled (hs : s.story.status ≠ .advance) (hes : es.length ≤ steps) :
      Closes s steps es ⟨.ok s.story.status, s.story, s.view⟩ es
  /-- One more node fails. -/
  | failed {n : Node} {e : StoryError} (hn : s.Due n)
      (he : n.perform s.story.scope s.story.bindings s.view = .error e s.view)
      (hes : es.length < steps) :
      Closes s steps es ⟨.error e, s.story.stop, s.view⟩ (es ++ [⟨n, .error e⟩])
  /-- One more node would be one too many. -/
  | runaway {n : Node} (hn : s.Due n) (hes : es.length = steps)
      (hadvance : ∀ x ∈ es, ∃ flow, x.outcome = .ok ⟨.advance, flow⟩) :
      Closes s steps es ⟨.error (.runaway s.story.maxSteps), s.story.stop, s.view⟩ es

/-- A run closes like the one behind its first node. -/
theorem Closes.cons {steps : Nat} {es log : List Entry} {r : Turn} (h : Closes s steps es r log)
    (n : Node) (flow : Flow) :
    Closes s (steps + 1) (⟨n, .ok ⟨.advance, flow⟩⟩ :: es) r
      (⟨n, .ok ⟨.advance, flow⟩⟩ :: log) := by
  cases h with
  | settled hs hes => exact .settled hs (Nat.succ_le_succ hes)
  | failed hn he hes => exact .failed hn he (Nat.succ_lt_succ hes)
  | runaway hn hes hadvance =>
    exact .runaway hn (congrArg Nat.succ hes) (List.forall_mem_cons.2 ⟨⟨flow, rfl⟩, hadvance⟩)

end Session

namespace Program

open Session (Course Closes)

/-- A run in place follows the course of the story, and does what `Story.run` says. -/
theorem run_closes {s : Stage} (hs : s.story.status = .advance) (steps : Nat) :
    ∃ es m log, Course s.toSession (es.map (·.node)) m ∧
      View.Shows s.story.scope s.story.bindings s.view es m.view ∧
      m.Closes steps es (s.story.run s.view steps) log ∧
      run steps s = (s.story.run s.view steps).leaving (s.log ++ log) := by
  induction steps generalizing s with
  | zero =>
    rw [Story.run]
    split
    · rename_i hnext
      refine ⟨[], ⟨s.story.stop, s.view⟩, [], Story.course_of_none hs s.view hnext, .refl,
        .settled (by rintro ⟨⟩) (Nat.zero_le _), ?_⟩
      rw [run_of_none hnext, List.append_nil]
      rfl
    · rename_i n stack hnext
      obtain ⟨f, rest, -, hf, hcourse⟩ := Story.course_of_some hs s.view hnext
      refine ⟨[], _, [], hcourse, .refl,
        .runaway ⟨hs, f, rest, rfl, hf⟩ rfl (List.forall_mem_nil _), ?_⟩
      rw [run_zero hnext, List.append_nil]
      rfl
  | succ steps ih =>
    rw [Story.run]
    split
    · rename_i hnext
      refine ⟨[], ⟨s.story.stop, s.view⟩, [], Story.course_of_none hs s.view hnext, .refl,
        .settled (by rintro ⟨⟩) (Nat.zero_le _), ?_⟩
      rw [run_of_none hnext, List.append_nil]
      rfl
    · rename_i n stack hnext
      obtain ⟨f, rest, rfl, hf, hcourse⟩ := Story.course_of_some hs s.view hnext
      dsimp only
      split
      · rename_i e he
        have hperform := Node.perform_eq n s.story.scope s.story.bindings s.view
        rw [he] at hperform
        refine ⟨[], _, [⟨n, .error e⟩], hcourse, .refl,
          .failed ⟨hs, f, rest, rfl, hf⟩ hperform (Nat.succ_pos _), ?_⟩
        exact run_of_error hnext he
      · rename_i step v hstep
        have hperform := Node.perform_eq n s.story.scope s.story.bindings s.view
        rw [hstep] at hperform
        have hcarry : Course s.toSession [n] ⟨s.story.after step (f.succ :: rest), v⟩ :=
          hcourse.trans (.single (.carry hs rfl hf hstep))
        rw [run_of_ok hnext hstep]
        dsimp only
        split
        · rename_i hsignal
          -- The story goes on as it is after the step, with one node less.
          have hafter : ({ s.story with
              stack := Story.follow step.flow (f.succ :: rest)
              remaining := step.signal.seconds?.getD s.story.remaining } : Story) =
              s.story.after step (f.succ :: rest) := by
            simp only [Story.after, hsignal, hs]
          rw [hafter]
          obtain ⟨es, m, log, hrest, hshows, hcloses, hrun⟩ :=
            ih (s := ⟨⟨s.story.after step (f.succ :: rest), v⟩, s.log ++ [⟨n, .ok step⟩]⟩) hsignal
          obtain ⟨signal, flow⟩ := step
          cases hsignal
          refine ⟨⟨n, .ok ⟨.advance, flow⟩⟩ :: es, m, ⟨n, .ok ⟨.advance, flow⟩⟩ :: log,
            hcarry.trans hrest, .carry hperform hshows, hcloses.cons n flow, ?_⟩
          rw [hrun, List.append_assoc]
          rfl
        · rename_i hsignal
          exact ⟨[⟨n, .ok step⟩], _, [⟨n, .ok step⟩], hcarry, .carry hperform .refl,
            .settled hsignal (Nat.succ_le_succ (Nat.zero_le _)), rfl⟩

end Program

/-! ## Calls -/

namespace Story

variable {s s' : Story} {v v' : View} {r : Request}

/-- Once it is stopped, a story looks like it did before it was opened. -/
theorem Opens.stop_eq (h : s.Opens v r s' v') : s'.stop = s.stop := by
  cases h <;> rfl

/-- A call that goes on with the story runs it. -/
theorem serve_of_opens (h : s.Opens v r s' v') : s.serve v r = s'.go v' := by
  cases h with
  | start hmain => exact start_of_contains hmain v
  | startAt hid => exact if_pos hid
  | advance hs => rw [serve, advance, hs]
  | resume hs =>
    rw [serve, resume]
    cases hs with
    | wait hs | pause hs => rw [hs]
  | update hs hleft =>
    rw [serve, update, hs]
    exact if_neg hleft
  | choose hs hid => exact choose_of_hasChoice hs hid

end Story

namespace Program

/-- A program that looks at what it works on. -/
theorem read {α : Type} (f : Stage → Program α) (s : Stage) : (get >>= f) s = f s s := rfl

/-- A call first looks at the status. -/
theorem read_status {s : Stage} {signal : Signal} (h : s.story.status = signal)
    (f : Signal → Program Signal) : (status >>= f) s = f signal s := by
  subst h
  rfl

/-- A story starts in a block that there is. -/
theorem startAt_of_contains {id : String} {s : Stage} (h : s.story.graph.contains id) :
    startAt id s = go { s with story := Story.awake { s.story with stack := [⟨id, 0⟩] } } := by
  rw [startAt, read, if_pos h]
  rfl

end Program

namespace Session

variable {s : Session} {r : Request}

/-- A call that opens a story runs it from there. -/
theorem perform_of_opens {story : Story} {view : View} (h : s.story.Opens s.view r story view) :
    s.perform r = Program.go ⟨⟨story, view⟩, []⟩ := by
  obtain ⟨story, view⟩ := s
  cases h with
  | start hmain =>
    rw [perform, Request.perform, Program.read, if_pos hmain]
    exact Program.startAt_of_contains hmain
  | startAt hid => exact Program.startAt_of_contains hid
  | advance hs => rw [perform, Request.perform, Program.read_status hs]
  | resume hs =>
    cases hs with
    | wait hs | pause hs =>
      rw [perform, Request.perform, Program.read_status hs]
      rfl
  | update hs hleft =>
    rw [perform, Request.perform, Program.read_status hs]
    exact congrFun (if_neg hleft) _
  | choose hs hid =>
    rw [perform, Request.perform, Program.read_status hs]
    exact congrFun (if_pos hid) _

/-- A call that carries out no node does in place what `Story.serve` says, and if it fails, it is
    refused. -/
theorem perform_of_not_opens (h : ∀ story view, ¬ s.story.Opens s.view r story view) :
    s.perform r = (s.turn r).leaving [] ∧
      ∀ e, (s.turn r).result = .error e → e.Refuses ∧ s.turn r = s.story.refuse s.view e := by
  -- Such a call succeeds and does in place what it returns, or it is refused and changes nothing.
  have idle {t : Turn} {signal : Signal} (ht : s.turn r = t) (hsignal : t.result = .ok signal)
      (hperform : s.perform r = .ok signal ⟨⟨t.story, t.view⟩, []⟩) :
      s.perform r = (s.turn r).leaving [] ∧
        ∀ e, (s.turn r).result = .error e → e.Refuses ∧ s.turn r = s.story.refuse s.view e := by
    rw [ht, Turn.leaving, hsignal]
    exact ⟨hperform, nofun⟩
  have refused {e : StoryError} (he : e.Refuses) (ht : s.turn r = s.story.refuse s.view e)
      (hperform : s.perform r = .error e ⟨s, []⟩) :
      s.perform r = (s.turn r).leaving [] ∧
        ∀ e, (s.turn r).result = .error e → e.Refuses ∧ s.turn r = s.story.refuse s.view e := by
    rw [ht]
    refine ⟨hperform, ?_⟩
    rintro _ ⟨⟩
    exact ⟨he, rfl⟩
  obtain ⟨⟨graph, scope, bindings, maxSteps, stack, status, remaining⟩, view⟩ := s
  cases r with
  | start =>
    have hmain : ¬ graph.contains Graph.main := fun hmain => h _ _ (.start hmain)
    exact idle (if_neg hmain) rfl (congrFun (if_neg hmain) _)
  | startAt id =>
    have hid : ¬ graph.contains id := fun hid => h _ _ (.startAt hid)
    exact refused .unknownBlock (if_neg hid) (congrFun (if_neg hid) _)
  | advance =>
    cases status with
    | advance => exact absurd (.advance rfl) (h _ _)
    | awaitResume | awaitDuration | awaitChoice | finished => exact idle rfl rfl rfl
  | resume =>
    cases status with
    | awaitResume => exact absurd (.resume (.wait rfl)) (h _ _)
    | awaitDuration => exact absurd (.resume (.pause rfl)) (h _ _)
    | awaitChoice => exact refused .awaitingChoice rfl rfl
    | advance | finished => exact idle rfl rfl rfl
  | update elapsed =>
    cases status with
    | awaitDuration t =>
      have hleft : 0 < remaining - elapsed :=
        Decidable.not_not.1 fun hleft => h _ _ (.update rfl hleft)
      exact idle (if_pos hleft) rfl (congrFun (if_pos hleft) _)
    | advance | awaitResume | awaitChoice | finished => exact idle rfl rfl rfl
  | choose id =>
    cases status with
    | awaitChoice =>
      have hid : ¬ view.hasChoice id := fun hid => h _ _ (.choose rfl hid)
      exact refused .unknownChoice (if_neg hid) (congrFun (if_neg hid) _)
    | advance | awaitResume | awaitDuration | finished =>
      exact refused .notAwaitingChoice rfl rfl
  | set name value =>
    cases hset : scope.set name value with
    | ok scope' =>
      refine idle (t := ⟨.ok status, ⟨graph, scope', bindings, maxSteps, stack, status, remaining⟩,
        view⟩) ?_ rfl ?_
      · rw [turn, Story.serve, Story.setVariable, hset]
        rfl
      · rw [perform, Request.perform, Program.read, hset]
        rfl
    | error e =>
      have hrefuses : (StoryError.scope e).Refuses := .scope
      refine refused hrefuses ?_ ?_
      · rw [turn, Story.serve, Story.setVariable, hset]
      · rw [perform, Request.perform, Program.read, hset]
        rfl

/-- A call that goes on with the story runs it from there in place. -/
theorem runs_of_opens {story : Story} {view : View} (h : s.story.Opens s.view r story view) :
    ∃ es m log, Course ⟨story, view⟩ (es.map (·.node)) m ∧
      View.Shows s.story.scope s.story.bindings view es m.view ∧
      m.Closes s.story.maxSteps es (s.turn r) log ∧ s.perform r = (s.turn r).leaving log := by
  obtain ⟨es, m, log, hcourse, hshows, hcloses, hrun⟩ :=
    Program.run_closes (s := ⟨⟨story, view⟩, []⟩) h.status story.maxSteps
  obtain ⟨-, hscope, hbindings, hsteps, -⟩ := Story.mk.inj h.stop_eq
  have hturn : s.turn r = story.run view story.maxSteps := Story.serve_of_opens h
  refine ⟨es, m, log, hcourse, hscope ▸ hbindings ▸ hshows, ?_, ?_⟩
  · rw [hturn, ← hsteps]
    exact hcloses
  · rw [perform_of_opens h, hturn]
    exact hrun

/-- Whatever the state of the story and the view: a call that returns an error is refused before
    it changes anything, or it stops the story, and then all that it has changed besides is the
    view. That is what the nodes made of it that were carried out before, from where the call went
    on; the node that failed changed nothing, and neither did one that was one too many. -/
theorem errors_atomic (s : Session) (r : Request) {e : StoryError}
    (h : (s.turn r).result = .error e) :
    ∃ log, s.perform r = .error e ⟨⟨(s.turn r).story, (s.turn r).view⟩, log⟩ ∧
      (e.Refuses → (s.turn r).story = s.story ∧ (s.turn r).view = s.view ∧ log = []) ∧
      (¬ e.Refuses → e.Stops ∧
        (s.turn r).story = { s.story with stack := [], remaining := 0, status := .finished } ∧
        ∃ story view es, s.story.Opens s.view r story view ∧
          View.Shows s.story.scope s.story.bindings view es (s.turn r).view ∧
          ((∃ n, log = es ++ [⟨n, .error e⟩] ∧
              n.perform s.story.scope s.story.bindings (s.turn r).view =
                .error e (s.turn r).view) ∨
            e = .runaway s.story.maxSteps ∧ log = es)) := by
  have leaving {log : List Entry} (hperform : s.perform r = (s.turn r).leaving log) :
      s.perform r = .error e ⟨⟨(s.turn r).story, (s.turn r).view⟩, log⟩ := by
    rw [hperform, Turn.leaving, h]
  by_cases hopens : ∃ story view, s.story.Opens s.view r story view
  · obtain ⟨story, view, hopens⟩ := hopens
    obtain ⟨es, m, log, hcourse, hshows, hcloses, hperform⟩ := runs_of_opens hopens
    have hstop : m.story.stop = s.story.stop := hcourse.stop_eq.trans hopens.stop_eq
    obtain ⟨-, hscope, hbindings, hsteps, -⟩ := Story.mk.inj hstop
    refine ⟨log, leaving hperform, ?_⟩
    -- A call that goes on with the story ends in one of three ways, and two of them are errors.
    generalize s.turn r = t at h hcloses
    cases hcloses with
    | settled => cases h
    | failed hn he =>
      cases h
      have hstops : e.Stops := by
        rcases Node.error_of_perform he with ⟨error, rfl⟩ | rfl
        · exact .eval
        · exact .noChoices
      rw [hscope, hbindings] at he
      exact ⟨fun hrefuses => absurd hrefuses hstops.not_refuses,
        fun _ => ⟨hstops, hstop, story, view, es, hopens, hshows, .inl ⟨_, rfl, he⟩⟩⟩
    | runaway hn =>
      cases h
      refine ⟨nofun, fun _ => ⟨.runaway, hstop, story, view, _, hopens, hshows, .inr ⟨?_, rfl⟩⟩⟩
      rw [hsteps]
  · obtain ⟨hperform, hrefused⟩ := perform_of_not_opens fun story view h => hopens ⟨story, view, h⟩
    obtain ⟨hrefuses, hturn⟩ := hrefused e h
    refine ⟨[], leaving hperform, fun _ => ?_, fun hnot => absurd hrefuses hnot⟩
    rw [hturn]
    exact ⟨rfl, rfl, rfl⟩

/-- A greeting by name. -/
def greeting : Graph :=
  .ofBlocks [(Graph.main,
    [.say none (.literal "Hello"), .append none (.concat (.literal ", ") (.interpolate "name"))])]

/-- The greeting fails, as the name is not known, but not before it said hello. -/
theorem errors_atomic_greeting :
    ∃ t, (ofStory ⟨greeting, ∅, ∅, 10, [], .finished, 0⟩).turn .start = t ∧
      t.result = .error (.eval (.undefined "name")) ∧ t.story.stack = [] ∧
      t.story.status = .finished ∧ t.view.lines = [⟨none, "Hello"⟩] := by
  have hresult : ((ofStory ⟨greeting, ∅, ∅, 10, [], .finished, 0⟩).turn .start).result =
      .error (.eval (.undefined "name")) := by rfl
  obtain ⟨log, -, -, hstops⟩ := errors_atomic _ _ hresult
  obtain ⟨-, hstory, -⟩ := hstops nofun
  refine ⟨_, rfl, hresult, ?_, ?_, by decide +kernel⟩
  · rw [hstory]
  · rw [hstory]

end Session
end Dialogue
