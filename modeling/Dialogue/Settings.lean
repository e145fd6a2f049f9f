import Dialogue.Compile
import Dialogue.Settings.Toml.Document
import Dialogue.Story

/-!
# Settings

The compiler and the stories each have one setting, a number that is at least one. It
is read from a TOML document. A document without the setting gives the default; other
keys do not count.
-/

namespace Dialogue.Settings

/-- What is wrong with a document. -/
inductive Problem where
  /-- It is no TOML, or the setting is no number. -/
  | malformed
  /-- The setting is zero. -/
  | zero
  deriving DecidableEq

/-- A setting that is a number of at least one. -/
structure Setting where
  /-- Its key. -/
  key : String
  /-- Its value where the document does not tell. -/
  fallback : Nat
  /-- What is being done when a document turns out to be malformed. -/
  task : String

namespace Setting

/-- What is wrong, in words. -/
def message (s : Setting) : Problem → String
  | .malformed => s.task
  | .zero => s.key ++ " must be at least 1"

/-- Reads the setting from a document. -/
def parse (s : Setting) (text : String) : Except Problem Nat :=
  match Toml.table? text with
  | none => .error .malformed
  | some t =>
    match Toml.Table.get? s.key t with
    | none => .ok s.fallback
    | some (.integer n) =>
      if n < 0 then .error .malformed
      else if n = 0 then .error .zero
      else .ok n.toNat
    | some _ => .error .malformed

/-- Reads the setting from a document that may be missing. Where it cannot be read, the
    default counts. -/
def load (s : Setting) (text : Option String) : Nat :=
  match text.map s.parse with
  | some (.ok n) => n
  | _ => s.fallback

end Setting

/-- The distance of tab stops in a script. -/
def tabSize : Setting := ⟨"tab_size", ({} : Options).tabSize, "parsing compile options"⟩

/-- The most nodes that a story carries out in one go. -/
def maxSteps : Setting := ⟨"max_steps", Story.defaultMaxSteps, "parsing story config"⟩

end Dialogue.Settings
