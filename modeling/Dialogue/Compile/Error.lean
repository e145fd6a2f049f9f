import Dialogue.Compile.Categories
import Dialogue.Cursor.Location

/-!
# Errors of a script

Why a script cannot be compiled, and where.
-/

namespace Dialogue

/-- Why a script cannot be compiled. -/
inductive CompileError where
  /-- Something else was expected there. -/
  | unexpected (place : Location) (expected : List String)
  /-- The script makes no sense there. -/
  | meaningless (place : Location) (reason : Reason)
  /-- A jump leads to no block. -/
  | unresolvedJump (place : Location) (id : String)
  /-- The uses of a variable contradict each other. -/
  | category (place : Location) (conflict : Conflict)
  deriving DecidableEq

namespace CompileError

/-- Where the error is. -/
def place : CompileError → Location
  | unexpected l _ => l
  | meaningless l _ => l
  | unresolvedJump l _ => l
  | category l _ => l

/-- The error in words. -/
def message (e : CompileError) : String :=
  let place := e.place.text
  match e with
  | unexpected _ expected => s!"{place}: expected " ++ Failure.oneOf expected
  | meaningless _ reason => s!"{place}: " ++ reason.message
  | unresolvedJump _ id => s!"{place}: cannot jump to \"{id}\", no block has that name"
  | category _ c =>
    let found := c.found.name
    let expected := c.expected.name
    s!"{place}: \"{c.name}\" is used as a {found} but it is a {expected}"

/-- The failure of a rule on a source, as an error of the script. -/
def ofFailure (source : List Char) : Failure → CompileError
  | .miss i e => unexpected (.of source i) e
  | .fatal i r => meaningless (.of source i) r

/-- A contradiction in a source, as an error of the script. -/
def ofConflict (source : List Char) (c : Found Conflict) : CompileError :=
  category (.of source c.index) c.item

end CompileError

end Dialogue
