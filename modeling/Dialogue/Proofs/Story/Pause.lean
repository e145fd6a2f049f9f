import Dialogue.Proofs.Number.Difference
import Dialogue.Proofs.Story.Limit

/-!
# What ends a pause

A story that pauses is held until it is resumed, until it is started again, or until as much
time has elapsed as is left of the pause (`Action.Ends`). Until then the host may do what it
likes: no node is carried out, and the story stays where it is (`Session.held_of_not_ends`), for
as long as nothing ends the pause (`Session.ended_of_acts`).

A time that is not a number ends every pause as well, as what is left of the pause is then not
a number either, and so not above zero.
-/

namespace Dialogue

/-- What ends a pause, of a story with these blocks, of which `t` seconds are left. -/
inductive Action.Ends (g : Graph) (t : Float) : Action → Prop
  /-- The pause is cut short. -/
  | resume : Ends g t (.call .resume)
  /-- The story starts at the main block, or is over if there is none. -/
  | start : Ends g t (.call .start)
  /-- The story starts at a block. -/
  | startAt {id : String} (h : g.contains id) : Ends g t (.call (.startAt id))
  /-- Nothing is left of the pause. -/
  | elapsed {e : Float} (h : t ≤ e) : Ends g t (.call (.update e))
  /-- What is left of the pause is not a number. -/
  | nan {e : Float} (h : e.isNaN) : Ends g t (.call (.update e))

namespace Story

/-- The story waits for `t` seconds to pass. -/
structure Pauses (s : Story) (t : Float) : Prop where
  /-- It waits for `t` seconds. -/
  status : s.status = .awaitDuration t
  /-- So much is left of the pause. -/
  remaining : s.remaining = t
  /-- Something is left of it. -/
  pos : 0 < t

/-- The story after another one that pauses, at the same place, with `t` seconds left. Its
    variables and functions may be others. -/
structure Holds (s : Story) (t : Float) (s' : Story) : Prop where
  /-- The blocks are the same. -/
  graph : s'.graph = s.graph
  /-- So is the limit of steps. -/
  maxSteps : s'.maxSteps = s.maxSteps
  /-- The story is where it was. -/
  stack : s'.stack = s.stack
  /-- It still pauses. -/
  pauses : s'.Pauses t

variable {s s' : Story} {v v' : View} {r : Request} {t e : Float}

/-- An update of all the time that is left ends a pause. -/
theorem Pauses.ends_update (h : s.Pauses t) (hleft : ¬ 0 < s.remaining - e) :
    Action.Ends s.graph t (.call (.update e)) := by
  rw [h.remaining, Number.not_lt_sub_iff] at hleft
  rcases hleft with hle | hnan | hnan
  · exact .elapsed hle
  · exact absurd h.pos (Number.not_pos_of_isNaN hnan)
  · exact .nan hnan

/-- Only what ends a pause makes the story go on. -/
theorem Pauses.ends_of_opens (h : s.Pauses t) (hopens : s.Opens v r s' v') :
    Action.Ends s.graph t (.call r) := by
  cases hopens with
  | start => exact .start
  | startAt hid => exact .startAt hid
  | advance hs | choose hs => cases h.status.symm.trans hs
  | resume => exact .resume
  | update _ hleft => exact h.ends_update hleft

/-- While a pause lasts, time that passes changes what is left of it, and nothing else. -/
theorem Pauses.update (h : s.Pauses t) (v : View)
    (he : ¬ Action.Ends s.graph t (.call (.update e))) :
    0 < t - e ∧ s.update v e = ⟨.ok (.awaitDuration (t - e)),
      { s with status := .awaitDuration (t - e), remaining := t - e }, v⟩ := by
  have hleft : 0 < t - e :=
    Classical.not_not.1 fun hleft => he (h.ends_update (h.remaining ▸ hleft))
  rw [Story.update, h.status]
  dsimp only
  rw [h.remaining, if_pos hleft]
  exact ⟨hleft, rfl⟩

/-- When a pause is over, the story goes on. -/
theorem Pauses.update_of_ends (h : s.Pauses t) (v : View) (he : t ≤ e ∨ e.isNaN) :
    s.update v e = s.awake.go v := by
  have hleft : ¬ 0 < t - e := Number.not_lt_sub_iff.2 (he.imp_right .inr)
  rw [Story.update, h.status]
  dsimp only
  rw [h.remaining, if_neg hleft]

/-- A call that does not end a pause leaves the story where it is. -/
theorem Pauses.serve (h : s.Pauses t) (v : View) (hr : ¬ Action.Ends s.graph t (.call r)) :
    (s.serve v r).view = v ∧ ∃ t', s.Holds t' (s.serve v r).story := by
  rcases s.serve_cases v r with ⟨s', v', hopens, -⟩ | hrests
  · exact absurd (h.ends_of_opens hopens) hr
  · generalize s.serve v r = turn at hrests
    cases hrests with
    | idle | refuse => exact ⟨rfl, t, rfl, rfl, rfl, h⟩
    | set => exact ⟨rfl, t, rfl, rfl, rfl, h.status, h.remaining, h.pos⟩
    | count _ hleft => exact ⟨rfl, _, rfl, rfl, rfl, rfl, rfl, hleft⟩
    | start => exact absurd .start hr

/-- Two updates hold a pause if each of them does. -/
theorem Holds.trans {s'' : Story} (h : s.Holds t s') (h' : s'.Holds e s'') : s.Holds e s'' :=
  ⟨h'.graph.trans h.graph, h'.maxSteps.trans h.maxSteps, h'.stack.trans h.stack, h'.pauses⟩

end Story

namespace Session

variable {g : Graph} {s : Session} {t : Float}

/-- The session when the host lends another view to the story. -/
def lend (s : Session) (v : View) : Session := ⟨s.story, v⟩

/-- What does not end a pause leaves the story where it is. -/
theorem held_of_not_ends (h : s.story.Pauses t) {a : Action} (ha : ¬ a.Ends s.story.graph t) :
    ∃ t', s.story.Holds t' (s.act a).story := by
  cases a with
  | call r => exact (h.serve s.view ha).2
  | rescope | rebind => exact ⟨t, rfl, rfl, rfl, h.status, h.remaining, h.pos⟩
  | clear | renew => exact ⟨t, rfl, rfl, rfl, h⟩

/-- A story that is not held any more was held until something ended the pause. -/
theorem ended_of_acts (h : s.story.Pauses t) (as : List Action)
    (has : ∀ t', ¬ s.story.Holds t' (s.acts as).story) :
    ∃ before a after t', as = before ++ a :: after ∧ s.story.Holds t' (s.acts before).story ∧
      a.Ends s.story.graph t' := by
  induction as generalizing s t with
  | nil => exact absurd ⟨rfl, rfl, rfl, h⟩ (has t)
  | cons a as ih =>
    -- The first action that ends the pause is the one that is looked for.
    by_cases ha : a.Ends s.story.graph t
    · exact ⟨[], a, as, t, rfl, ⟨rfl, rfl, rfl, h⟩, ha⟩
    · obtain ⟨t', hholds⟩ := held_of_not_ends h ha
      obtain ⟨before, b, after, t'', rfl, hbefore, hb⟩ :=
        ih hholds.pauses fun t'' h'' => has t'' (hholds.trans h'')
      exact ⟨a :: before, b, after, t'', rfl, hholds.trans hbefore, hholds.graph ▸ hb⟩

/-- A story gets to a pause only with something left of it. -/
theorem pauses_acts {bs : Bindings} {limit : Nat} {story : Story}
    (h : Story.ofGraph g bs limit = .ok story) (actions : List Action)
    (ht : ((ofStory story).acts actions).story.status = .awaitDuration t) :
    ((ofStory story).acts actions).story.Pauses t ∧
      ((ofStory story).acts actions).story.graph = g := by
  obtain ⟨hcoherent, -⟩ := coherent_acts h actions
  have htimed := hcoherent.timed
  rw [Story.Timed, ht] at htimed
  exact ⟨⟨ht, htimed.1, htimed.2⟩, hcoherent.graph⟩

/-- Whatever a host does, when its story waits for some seconds to pass, then there is so much left
    of the pause, and more than nothing. Whichever view it lends to the story, what it does next
    ends the pause (`Action.Ends`) if the story is not held afterwards, and a call that does not
    end the pause carries out no node and does not change the view. If not as much time passes as
    is left of the pause, the call changes what is left of it and nothing else; otherwise, and if
    the time is not a number, the story goes on. -/
theorem pause_ended {g : Graph} {bs : Bindings} {limit : Nat} {story : Story}
    (h : Story.ofGraph g bs limit = .ok story) (actions : List Action) {s : Session}
    (hs : (ofStory story).acts actions = s) {t : Float}
    (ht : s.story.status = .awaitDuration t) (v : View) :
    s.story.remaining = t ∧ 0 < t ∧
      (∀ a, (∀ t', ¬ s.story.Holds t' ((s.lend v).act a).story) → a.Ends g t) ∧
      (∀ r, ¬ Action.Ends g t (.call r) →
        (s.lend v).carried r = [] ∧ ((s.lend v).turn r).view = v) ∧
      (∀ e, ¬ (t ≤ e ∨ e.isNaN) → 0 < t - e ∧
        (s.lend v).turn (.update e) = ⟨.ok (.awaitDuration (t - e)),
          { s.story with status := .awaitDuration (t - e), remaining := t - e }, v⟩) ∧
      ∀ e, t ≤ e ∨ e.isNaN → (s.lend v).turn (.update e) = s.story.awake.go v := by
  subst hs
  -- How the story got there does not matter any more, only that it pauses.
  obtain ⟨hpauses, rfl⟩ := pauses_acts h actions ht
  generalize (ofStory story).acts actions = s at hpauses
  have hlend : (s.lend v).story.Pauses t := hpauses
  refine ⟨hpauses.remaining, hpauses.pos, fun a ha => ?_, fun r hr => ⟨?_, (hpauses.serve v hr).1⟩,
    fun e he => ?_, fun e he => hpauses.update_of_ends v he⟩
  · by_contra hnot
    obtain ⟨t', hholds⟩ := held_of_not_ends hlend hnot
    exact ha t' hholds
  · obtain ⟨hperform, -⟩ := perform_of_not_opens (s := s.lend v)
      fun story view hopens => hr (hlend.ends_of_opens hopens)
    exact carried_of_leaving hperform
  · refine hpauses.update v fun hends => ?_
    cases hends with
    | elapsed hle => exact he (.inl hle)
    | nan hnan => exact he (.inr hnan)

/-- The tour starts with a pause. -/
theorem tour_paused :
    ((ofStory tourStory).acts [.call .start]).story.status = .awaitDuration 2 := by
  decide +kernel

/-- After half a second there are one and a half left, and after two more the story goes on. -/
theorem pause_ended_tour :
    ∃ s, (ofStory tourStory).acts [.call .start] = s ∧ s.story.status = .awaitDuration 2 ∧
      ¬ ((2 : Float) ≤ 0.5 ∨ Float.isNaN 0.5) ∧
      (s.turn (.update 0.5)).story.status = .awaitDuration (2 - 0.5) ∧
      (2 : Float) ≤ 2.5 ∧ s.turn (.update 2.5) = s.story.awake.go s.view ∧
      ¬ Action.Ends tour 2 (.call (.choose "tea")) ∧ s.carried (.choose "tea") = [] ∧
      (∀ t', ¬ s.story.Holds t' (s.act (.call .resume)).story) ∧
      Action.Ends tour 2 (.call .resume) := by
  obtain ⟨-, -, hends, hcarried, hcount, hgo⟩ :=
    pause_ended ofGraph_tour [.call .start] rfl tour_paused
      ((ofStory tourStory).acts [.call .start]).view
  have hshort : ¬ ((2 : Float) ≤ 0.5 ∨ Float.isNaN 0.5) := by decide +kernel
  have hlong : (2 : Float) ≤ 2.5 := by decide +kernel
  have hchoose : ¬ Action.Ends tour 2 (.call (.choose "tea")) := nofun
  have hresume : ∀ t', ¬ ((ofStory tourStory).acts [.call .start]).story.Holds t'
      (((ofStory tourStory).acts [.call .start]).act (.call .resume)).story := by
    intro t' hholds
    have hstatus : (((ofStory tourStory).acts [.call .start]).act
        (.call .resume)).story.status = .awaitChoice := by decide +kernel
    cases hholds.pauses.status.symm.trans hstatus
  exact ⟨_, rfl, tour_paused, hshort, congrArg (·.story.status) (hcount 0.5 hshort).2, hlong,
    hgo 2.5 (.inl hlong), hchoose, (hcarried _ hchoose).1, hresume, hends _ hresume⟩

/-- Time that is not a number ends the pause, though it is not as much as is left of it. -/
theorem pause_ended_nan :
    ∃ s e, (ofStory tourStory).acts [.call .start] = s ∧ s.story.status = .awaitDuration 2 ∧
      ¬ (2 : Float) ≤ e ∧ (s.act (.call (.update e))).story.status = .awaitChoice := by
  refine ⟨_, 0 / 0, rfl, tour_paused, by decide +kernel, by decide +kernel⟩

end Session
end Dialogue
