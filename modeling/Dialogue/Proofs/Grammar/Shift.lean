import Dialogue.Proofs.Grammar.Lines
import Dialogue.Proofs.Parser.Follow

/-!
# A source behind another one

What was read before a source does not matter if it ends with a line break: the lines have the
columns that they have without it. So all statements are read alike there (`levelled_shift`).

In particular a statement is read like itself, which shows that it claims no id
(`claims_node`).
-/

namespace Dialogue

open Dialogue.Parser

namespace Cursor

variable {c d : Cursor}

/-- The same is ahead of the second place, and behind its source stands another one that ended
    with a line break. -/
structure Shifted (c d : Cursor) : Prop where
  /-- The same is ahead. -/
  rest : d.rest = c.rest
  /-- The same lies behind, and a line break before it. -/
  before : ∃ b, d.before = c.before ++ b ∧ ∀ x ∈ b.head?, Text.isBreak x
  /-- Tab stops are the same. -/
  tabSize : d.tabSize = c.tabSize

namespace Shifted

/-- A place is its own shift. -/
theorem refl (c : Cursor) : c.Shifted c := ⟨rfl, ⟨[], (List.append_nil _).symm, nofun⟩, rfl⟩

/-- Both skip the same. -/
theorem skip (h : c.Shifted d) (n : Nat) : (c.skip n).Shifted (d.skip n) := by
  obtain ⟨b, hb, hbreak⟩ := h.before
  refine ⟨by rw [rest_skip, rest_skip, h.rest], ⟨b, ?_, hbreak⟩, h.tabSize⟩
  rw [before_skip, before_skip, hb, h.rest, List.append_assoc]

/-- Both skip the same run. -/
theorem skipWhile (h : c.Shifted d) (p : Char → Bool) :
    (c.skipWhile p).Shifted (d.skipWhile p) := by
  rw [Cursor.skipWhile, Cursor.skipWhile, h.rest]
  exact h.skip _

/-- References do not matter. -/
theorem withReference (h : c.Shifted d) (r r' : Reference) :
    (c.withReference r).Shifted (d.withReference r') :=
  ⟨h.rest, h.before, h.tabSize⟩

/-- Both have the same behind them on the line. -/
theorem behind_eq (h : c.Shifted d) : d.behind = c.behind := by
  obtain ⟨b, hb, hbreak⟩ := h.before
  rw [behind, behind, hb, takeWhile_append_of_head fun x hx => by simp [hbreak x hx]]

/-- Both have the same column. -/
theorem column_eq (h : c.Shifted d) : d.column = c.column := by
  rw [Cursor.column_eq, Cursor.column_eq, h.behind_eq, h.rest, h.tabSize]

/-- Both are at the start of a line, or neither is. -/
theorem atLineStart_eq (h : c.Shifted d) : d.atLineStart = c.atLineStart := by
  obtain ⟨b, hb, hbreak⟩ := h.before
  rw [atLineStart, atLineStart, hb]
  cases c.before with
  | nil =>
    cases b with
    | nil => rfl
    | cons x b => exact hbreak x rfl
  | cons x xs => rfl

end Shifted

end Cursor

/-- Places in a source that may stand behind another one, with references of a column. -/
def shift (m : Nat) (_ : List Region) (c d : Cursor) : Prop :=
  c.Shifted d ∧ c.reference.column = m ∧ d.reference.column = m

/-- Such places behind the end of a line. -/
def shiftLine (m : Nat) (c d : Cursor) : Prop :=
  shift m [] c d ∧ (¬c.atEnd → (c.skipWhile Text.isBlank).rest ≠ [])

/-- A source and its shift are read in step. -/
theorem aligned_shift (m : Nat) : Aligned (shift m) where
  line h := by rw [Cursor.line, Cursor.line, h.1.rest]
  nil h := by rw [h.1.rest]
  step h _ _ := ⟨h.1.skip 1, h.2⟩
  spaces _ h := ⟨h.1.skipWhile _, h.2⟩
  column h _ := h.1.column_eq.symm
  reference h := h.2.1.trans h.2.2.symm
  quoted _ h hrest := ⟨_, h.1.rest.trans hrest, h.1.skip 1, h.2⟩

/-- The ends of lines agree. -/
theorem agree_lineEnd_shift {m : Nat} {J : Facts → Facts → Prop} :
    Agree J (Behind shift shiftLine m) (lineEnd : Rule Unit) lineEnd (shiftLine m) := by
  refine agree_lineEnd (fun c d h => ?_) fun c d h _ => ?_
  · have h := h.elim id (·.1)
    rw [EndsLine, EndsLine, h.1.atLineStart_eq, Blank, Blank, Cursor.line, Cursor.line,
      (h.1.skipWhile _).rest]
  · have h := h.elim id (·.1)
    obtain ⟨hrest, hne⟩ := rest_skip_blankLength c
    rw [h.1.rest]
    refine ⟨⟨h.1.skip _, h.2⟩, fun hend => ?_⟩
    rw [hrest]
    exact hne fun hnil => hend (by rw [Cursor.atEnd, hnil]; rfl)

/-- Behind a source that ends with a line break all is read as it is without it. -/
theorem levelled_shift : Levelled shift shiftLine where
  aligned := aligned_shift
  reference h := h.2
  brace h _ := ⟨h.1.skip 1, h.2⟩
  bare := .rfl
  withReference h hr hr' := ⟨h.1.withReference _ _, hr, hr'⟩
  withReference' h hr hr' := ⟨⟨h.1.1.withReference _ _, hr, hr'⟩, h.2⟩
  gap h :=
    have h := h.elim id (·.1)
    ⟨h.1.skipWhile _, h.2⟩
  lineEnd := @agree_lineEnd_shift
  atEnd h := by rw [Cursor.atEnd, Cursor.atEnd, h.1.1.rest]
  next h hend := ⟨⟨h.1.1.skipWhile _, h.1.2⟩, h.2 hend⟩

end Dialogue
