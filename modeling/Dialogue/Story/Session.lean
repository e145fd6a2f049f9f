import Dialogue.Story.Request

/-!
# Sessions

A session is a story together with the view that its host lends it. Between two calls the
host may change the variables and the functions, clear the view, or go on with a new one.
-/

namespace Dialogue

/-- A story and the view that its host keeps for it. -/
structure Session where
  /-- The story. -/
  story : Story
  /-- The view. -/
  view : View

/-- What a host does. -/
inductive Action where
  /-- Call the story. -/
  | call (r : Request)
  /-- Change the variables. -/
  | rescope (scope : Scope)
  /-- Change the functions. -/
  | rebind (bindings : Bindings)
  /-- Clear the view. -/
  | clear (kind : ClearKind)
  /-- Go on with an empty view. -/
  | renew

namespace Session

/-- The start of a session: nothing is shown. -/
def ofStory (s : Story) : Session := ⟨s, .empty⟩

/-- What a call leads to. -/
def turn (s : Session) (r : Request) : Turn := s.story.serve s.view r

/-- The session after an action of the host. -/
def act (s : Session) : Action → Session
  | .call r => ⟨(s.turn r).story, (s.turn r).view⟩
  | .rescope scope => ⟨{ s.story with scope }, s.view⟩
  | .rebind bindings => ⟨{ s.story with bindings }, s.view⟩
  | .clear kind => ⟨s.story, s.view.clear kind⟩
  | .renew => ⟨s.story, .empty⟩

/-- The session after several actions. -/
def acts (s : Session) : List Action → Session
  | [] => s
  | a :: as => (s.act a).acts as

end Session

end Dialogue
