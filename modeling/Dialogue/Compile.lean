import Dialogue.Compile.Error
import Dialogue.Grammar

/-!
# Compiling a script

A source is read as an outline, with facts about what it holds. From the facts the
variables get their categories, and the jumps are checked against the blocks there are.
Of several mistakes the one is reported that is found first, in this order.
-/

namespace Dialogue

/-- How the compiler reads a source. -/
structure Options where
  /-- The distance of tab stops. -/
  tabSize : Nat := 4
  deriving DecidableEq

/-- What a source says. -/
structure Script where
  /-- Its lines. -/
  outline : Outline
  /-- What was found in them. -/
  facts : Facts

/-- Reads a source. -/
def Script.read (options : Options) (registry : Grammar.Registry) (source : List Char) :
    Except CompileError Script :=
  let reply := Grammar.source registry (.ofChars source options.tabSize) .empty
  match reply.outcome with
  | .ok (outline, _) => .ok ⟨outline, reply.journal⟩
  | .error failure => .error (.ofFailure source failure)

namespace Facts

/-- The categories of the variables of a source. -/
def resolve (f : Facts) (source : List Char) : Except CompileError (Catalog Category) :=
  f.categories.mapError (.ofConflict source)

/-- The jumps that lead to no block of a graph, in the order they were found. -/
def unresolved (f : Facts) (g : Graph) : List (Found String) :=
  f.jumps.filter fun j => !g.contains j.item

/-- Checks the jumps against the blocks of a graph. -/
def checkJumps (f : Facts) (source : List Char) (g : Graph) : Except CompileError Unit :=
  match f.unresolved g with
  | [] => .ok ()
  | j :: _ => .error (.unresolvedJump (.of source j.index) j.item)

end Facts

/-- Compiles a source to its graph. -/
def compile (options : Options) (registry : Grammar.Registry) (source : String) :
    Except CompileError Graph := do
  let chars := source.toList
  let script ← Script.read options registry chars
  let graph := script.outline.graph
  let _ ← script.facts.resolve chars
  script.facts.checkJumps chars graph
  return graph

end Dialogue
