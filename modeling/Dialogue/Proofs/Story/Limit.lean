import Dialogue.Proofs.Story.InPlace

/-!
# The limit of steps

A call carries out at most as many nodes as its story allows, and it is a runaway just when so
many were carried out, none of which made the story wait, and there is one more to carry out
(`Session.limit_exact`). Any other call does not notice the limit: with a larger one it returns the
same and leaves the same behind (`Story.run_limited`, `Session.turn_limited`).
-/

namespace Dialogue

/-- The story with another limit. -/
def Story.limited (s : Story) (limit : Nat) : Story := { s with maxSteps := limit }

/-- What a call leads to, with another limit. -/
def Turn.limited (t : Turn) (limit : Nat) : Turn := { t with story := t.story.limited limit }

/-- Was too much done without waiting? -/
def Turn.Runaway (t : Turn) : Prop := ∃ limit, t.result = .error (.runaway limit)

namespace Story

variable {s : Story} {v : View} {limit steps steps' : Nat}

/-- A run without a next node is over. -/
theorem run_of_none (h : nextNode? s.graph s.stack = none) (v : View) (steps : Nat) :
    s.run v steps = ⟨.ok .finished, s.stop, v⟩ := by
  rw [run.eq_def, h]

/-- A run that ends within its limit ends in the same way within a larger one. -/
theorem run_limited (limit : Nat) (hsteps : steps ≤ steps') (h : ¬ (s.run v steps).Runaway) :
    (s.limited limit).run v steps' = (s.run v steps).limited limit := by
  -- By induction on the smaller number of steps: the larger one has a step left whenever it has.
  induction steps generalizing s v steps' with
  | zero =>
    cases hnext : nextNode? s.graph s.stack with
    | none => rw [run_of_none hnext, run_of_none (s := s.limited limit) hnext]; rfl
    | some next =>
      rw [run.eq_def, hnext] at h
      exact absurd ⟨_, rfl⟩ h
  | succ steps ih =>
    obtain ⟨k, rfl⟩ : ∃ k, steps' = k + 1 := Nat.exists_eq_succ_of_ne_zero (by omega)
    have hk : steps ≤ k := Nat.le_of_succ_le_succ hsteps
    cases hnext : nextNode? s.graph s.stack with
    | none => rw [run_of_none hnext, run_of_none (s := s.limited limit) hnext]; rfl
    | some next =>
      obtain ⟨n, stack⟩ := next
      have hnext' : nextNode? (s.limited limit).graph (s.limited limit).stack = some (n, stack) :=
        hnext
      rw [run.eq_def, hnext']
      rw [run.eq_def, hnext] at h ⊢
      cases hstep : n.step s.scope s.bindings v with
      | error e =>
        have hstep' : n.step (s.limited limit).scope (s.limited limit).bindings v = _ := hstep
        simp only [hstep, hstep']
        rfl
      | ok result =>
        have hstep' : n.step (s.limited limit).scope (s.limited limit).bindings v = _ := hstep
        simp only [hstep, hstep'] at h ⊢
        split
        · rename_i hsignal
          rw [if_pos hsignal] at h
          exact ih hk h
        · rfl

/-- Another limit opens a story alike. -/
theorem Opens.limited {s' : Story} {v' : View} {r : Request} (h : s.Opens v r s' v')
    (limit : Nat) : (s.limited limit).Opens v r (s'.limited limit) v' := by
  cases h with
  | start hmain => exact .start hmain
  | startAt hid => exact .startAt hid
  | advance hs => exact .advance hs
  | resume hs =>
    refine .resume ?_
    cases hs with
    | wait hs => exact .wait hs
    | pause hs => exact .pause hs
  | update hs hleft => exact .update hs hleft
  | choose hs hid => exact .choose hs hid

/-- A call that carries out no node does not depend on the limit. -/
theorem serve_limited_of_not_opens {r : Request} (h : ∀ s' v', ¬ s.Opens v r s' v') (limit : Nat) :
    (s.limited limit).serve v r = (s.serve v r).limited limit := by
  -- The turn is one and the same whatever the limit is, that of the story included.
  suffices hturn : ∃ t : Turn, ∀ l, (s.limited l).serve v r = t.limited l by
    obtain ⟨t, ht⟩ := hturn
    calc (s.limited limit).serve v r = (t.limited s.maxSteps).limited limit := ht limit
      _ = (s.serve v r).limited limit := congrArg (Turn.limited · limit) (ht s.maxSteps).symm
  obtain ⟨graph, scope, bindings, maxSteps, stack, status, remaining⟩ := s
  let s : Story := ⟨graph, scope, bindings, maxSteps, stack, status, remaining⟩
  cases r with
  | start =>
    have hmain : ¬ graph.contains Graph.main := fun hmain => h _ _ (.start hmain)
    exact ⟨s.stop.idle v, fun _ => if_neg hmain⟩
  | startAt id =>
    have hid : ¬ graph.contains id := fun hid => h _ _ (.startAt hid)
    exact ⟨s.refuse v (.unknownBlock id), fun _ => if_neg hid⟩
  | advance =>
    cases status with
    | advance => exact absurd (.advance rfl) (h _ _)
    | awaitResume | awaitDuration | awaitChoice | finished => exact ⟨s.idle v, fun _ => rfl⟩
  | resume =>
    cases status with
    | awaitResume => exact absurd (.resume (.wait rfl)) (h _ _)
    | awaitDuration => exact absurd (.resume (.pause rfl)) (h _ _)
    | awaitChoice => exact ⟨s.refuse v .awaitingChoice, fun _ => rfl⟩
    | advance | finished => exact ⟨s.idle v, fun _ => rfl⟩
  | update elapsed =>
    cases status with
    | awaitDuration t =>
      have hleft : 0 < remaining - elapsed :=
        Decidable.not_not.1 fun hleft => h _ _ (.update rfl hleft)
      let left := remaining - elapsed
      exact ⟨({ s with remaining := left, status := .awaitDuration left } : Story).idle v,
        fun _ => if_pos hleft⟩
    | advance | awaitResume | awaitChoice | finished => exact ⟨s.idle v, fun _ => rfl⟩
  | choose id =>
    cases status with
    | awaitChoice =>
      have hid : ¬ v.hasChoice id := fun hid => h _ _ (.choose rfl hid)
      exact ⟨s.refuse v (.unknownChoice id), fun _ => if_neg hid⟩
    | advance | awaitResume | awaitDuration | finished =>
      exact ⟨s.refuse v .notAwaitingChoice, fun _ => rfl⟩
  | set name value =>
    cases hset : scope.set name value with
    | ok scope =>
      refine ⟨({ s with scope } : Story).idle v, fun l => ?_⟩
      rw [serve, setVariable, limited, hset]
      rfl
    | error e =>
      refine ⟨s.refuse v (.scope e), fun l => ?_⟩
      rw [serve, setVariable, limited, hset]
      rfl

/-- A call that is no runaway does the same with a larger limit. -/
theorem serve_limited {r : Request} (hlimit : s.maxSteps ≤ limit) (h : ¬ (s.serve v r).Runaway) :
    (s.limited limit).serve v r = (s.serve v r).limited limit := by
  by_cases hopens : ∃ s' v', s.Opens v r s' v'
  · obtain ⟨s', v', hopens⟩ := hopens
    rw [serve_of_opens hopens] at h ⊢
    rw [serve_of_opens (hopens.limited limit)]
    obtain ⟨-, -, -, hsteps, -⟩ := Story.mk.inj hopens.stop_eq
    exact run_limited limit (hsteps ▸ hlimit) h
  · exact serve_limited_of_not_opens (fun s' v' h => hopens ⟨s', v', h⟩) limit

/-- A story is opened in one way. -/
theorem Opens.eq {s₁ s₂ : Story} {v₁ v₂ : View} {r : Request} (h₁ : s.Opens v r s₁ v₁)
    (h₂ : s.Opens v r s₂ v₂) : s₁ = s₂ ∧ v₁ = v₂ := by
  cases h₁ <;> cases h₂ <;> exact ⟨rfl, rfl⟩

end Story

namespace Session

variable {s t u : Session} {ns ks : List Node}

/-- A course that cannot go on goes on from every place that another one gets to with the nodes it
    begins with. -/
theorem Course.rest (h : Course s ns t) (hu : ∀ ls w, ¬ Tick u ls w)
    (h' : Course s (ns ++ ks) u) : Course t ks u := by
  generalize hms : ns ++ ks = ms at h'
  induction h generalizing ms with
  | refl =>
    subst hms
    exact h'
  | step htick _ ih =>
    cases h' with
    | refl => exact absurd htick (hu _ _)
    | step htick' hrest =>
      obtain ⟨rfl, rfl⟩ := htick.deterministic htick'
      rw [List.append_assoc] at hms
      exact ih _ (List.append_cancel_left hms) hrest

/-- A place with a node to carry out is the last one before that node. -/
theorem Due.eq_of_course {n : Node} (h : s.Due n) (hcourse : Course s [] t) : t = s := by
  generalize hns : ([] : List Node) = ns at hcourse
  cases hcourse with
  | refl => rfl
  | step htick _ =>
    obtain ⟨hs, f, rest, hstack, hf⟩ := h
    cases htick with
    | finish _ hempty => cases hstack.symm.trans hempty
    | leave _ hstack' hf' =>
      cases hstack.symm.trans hstack'
      cases hf.symm.trans hf'
    | carry => cases hns

/-- The nodes that a call carries out, the one that fails included. -/
def carried (s : Session) (r : Request) : List Entry :=
  match s.perform r with
  | .ok _ t => t.log
  | .error _ t => t.log

/-- What a call has carried out is its log. -/
theorem carried_of_leaving {r : Request} {turn : Turn} {log : List Entry}
    (h : s.perform r = turn.leaving log) : s.carried r = log := by
  rw [carried, h, Turn.leaving]
  cases turn.result <;> rfl

/-- The session with another limit. -/
def limited (s : Session) (limit : Nat) : Session := ⟨s.story.limited limit, s.view⟩

/-- A call carries out at most as many nodes as its story allows. It is a runaway just when it
    carried out so many, all of which let the story go on, and there is one more to carry out once
    the blocks that are used up are left. If it is none, then with any larger limit it returns the
    same and leaves the same story, but for the limit, and the same view behind. -/
theorem limit_exact (s : Session) (r : Request) :
    (s.carried r).length ≤ s.story.maxSteps ∧
      (∀ limit, (s.turn r).result = .error (.runaway limit) ↔
        limit = s.story.maxSteps ∧ (s.carried r).length = s.story.maxSteps ∧
          (∀ x ∈ s.carried r, ∃ flow, x.outcome = .ok ⟨.advance, flow⟩) ∧
          ∃ story view m n, s.story.Opens s.view r story view ∧
            Course ⟨story, view⟩ ((s.carried r).map (·.node)) m ∧ m.Due n) ∧
      (¬ (s.turn r).Runaway → ∀ limit, s.story.maxSteps ≤ limit →
        (s.limited limit).turn r = (s.turn r).limited limit) := by
  refine and_assoc.1 ⟨?_, fun h limit hlimit => Story.serve_limited hlimit h⟩
  by_cases hopens : ∃ story view, s.story.Opens s.view r story view
  · obtain ⟨story, view, hopens⟩ := hopens
    obtain ⟨es, m, log, hcourse, -, hcloses, hperform⟩ := runs_of_opens hopens
    rw [carried_of_leaving hperform]
    obtain ⟨-, -, -, hsteps, -⟩ := Story.mk.inj (hcourse.stop_eq.trans hopens.stop_eq)
    generalize s.turn r = t at hcloses
    cases hcloses with
    | settled hs hes =>
      refine ⟨hes, fun limit => iff_of_false nofun ?_⟩
      -- What is carried out determines the course, and where the story has settled no node is due.
      rintro ⟨-, -, -, story', view', m', n, hopens', hcourse', hdue⟩
      obtain ⟨rfl, rfl⟩ := hopens.eq hopens'
      have hstuck : ∀ ls w, ¬ Tick m ls w := fun ls w htick => hs htick.status
      rw [← List.append_nil (es.map _)] at hcourse
      obtain rfl := hdue.eq_of_course (hcourse'.rest hstuck hcourse)
      exact hs hdue.1
    | @failed n e hn he hes =>
      refine ⟨?_, fun limit => iff_of_false ?_ ?_⟩
      · rw [List.length_append]
        exact hes
      · rintro ⟨⟩
        rcases Node.error_of_perform he with ⟨error, h⟩ | h <;> cases h
      · rintro ⟨-, -, hadvance, -⟩
        obtain ⟨flow, hflow⟩ := hadvance ⟨n, .error e⟩ (List.mem_append_right es List.mem_cons_self)
        cases hflow
    | runaway hn hes hadvance =>
      refine ⟨Nat.le_of_eq hes, fun limit => ⟨?_, ?_⟩⟩
      · rintro ⟨⟩
        exact ⟨hsteps, hes, hadvance, story, view, m, _, hopens, hcourse, hn⟩
      · rintro ⟨rfl, -⟩
        rw [hsteps]
  · obtain ⟨hperform, hrefused⟩ := perform_of_not_opens fun story view h => hopens ⟨story, view, h⟩
    rw [carried_of_leaving hperform]
    refine ⟨Nat.zero_le _, fun limit => iff_of_false ?_ ?_⟩
    · intro hresult
      cases (hrefused _ hresult).1
    · rintro ⟨-, -, -, story, view, -, -, hopens', -⟩
      exact hopens ⟨story, view, hopens'⟩

/-- A line that is said over and over. -/
def refrain : Graph :=
  .ofBlocks [(Graph.main, [.say none (.literal "La"), .jump Graph.main])]

/-- The refrain never ends, so a call ends it after three nodes, before the next jump. A story that
    waits is not affected by a larger limit. -/
theorem limit_exact_refrain :
    let s := ofStory ⟨refrain, ∅, ∅, 3, [], .finished, 0⟩
    (s.turn .start).result = .error (.runaway 3) ∧ (s.carried .start).length = 3 ∧
      (∃ story view m n, s.story.Opens s.view .start story view ∧
        Course ⟨story, view⟩ ((s.carried .start).map (·.node)) m ∧ m.Due n) ∧
      ((ofStory tourStory).turn .start).result = .ok (.awaitDuration 2) ∧
      ((ofStory tourStory).limited 20).turn .start =
        ((ofStory tourStory).turn .start).limited 20 := by
  intro s
  have hresult : (s.turn .start).result = .error (.runaway 3) := rfl
  obtain ⟨-, hrunaway, -⟩ := limit_exact s .start
  obtain ⟨-, hlength, -, hnext⟩ := (hrunaway 3).1 hresult
  have htour : ((ofStory tourStory).turn .start).result = .ok (.awaitDuration 2) := rfl
  obtain ⟨-, -, hlimited⟩ := limit_exact (ofStory tourStory) .start
  refine ⟨hresult, hlength, hnext, htour, hlimited ?_ 20 (by decide)⟩
  rintro ⟨limit, hlimit⟩
  cases htour.symm.trans hlimit

end Session
end Dialogue
