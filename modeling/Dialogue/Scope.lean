import Dialogue.Catalog
import Dialogue.Value

/-!
# Scopes

A scope holds the values of the variables. A variable may get another value of the same
category at any time, but a value of another category only once it is removed.
-/

namespace Dialogue

/-- The values of the variables. -/
abbrev Scope := Catalog Value

/-- A variable would change its category. -/
structure TypeChange where
  /-- The variable. -/
  name : String
  /-- The category of its value. -/
  old : Category
  /-- The category of the refused value. -/
  new : Category
  deriving DecidableEq

/-- The error in words. -/
def TypeChange.message (e : TypeChange) : String :=
  let old := e.old.name
  let new := e.new.name
  s!"cannot change the type of \"{e.name}\" from {old} to {new}"

/-- Gives a variable a value. A variable keeps its category. -/
def Scope.set (s : Scope) (name : String) (v : Value) : Except TypeChange Scope :=
  match s.get? name with
  | some old =>
    if old.category = v.category then .ok (s.insert name v)
    else .error ⟨name, old.category, v.category⟩
  | none => .ok (s.insert name v)

end Dialogue
