import Dialogue.Text.Space

/-!
# Cursors

A *cursor* stands between two characters of a source. It sees what lies behind it,
nearest character first, and what lies ahead. Offsets are counted in bytes of the
encoded source, and the two that are asked for all the time, the one of the cursor and
the number of bytes ahead, are carried along.

A cursor also knows the *reference*, the place whose line indentation is compared with.
The column of a line is the one of its first character that is no blank, counted from
one, a tab going to the next tab stop.
-/

namespace Dialogue

/-- The number of bytes that encode a text. -/
def byteSize : List Char → Nat
  | [] => 0
  | c :: cs => c.utf8Size + byteSize cs

/-- Two texts in a row have the bytes of both. -/
@[simp] theorem byteSize_append (cs ds : List Char) :
    byteSize (cs ++ ds) = byteSize cs + byteSize ds := by
  induction cs with
  | nil => simp [byteSize]
  | cons c cs ih => simp [byteSize, ih, Nat.add_assoc]

/-- The order of characters does not matter for their bytes. -/
@[simp] theorem byteSize_reverse (cs : List Char) : byteSize cs.reverse = byteSize cs := by
  induction cs with
  | nil => rfl
  | cons c cs ih => simp [byteSize, ih, Nat.add_comm]

/-- Every character has a byte at least. -/
theorem length_le_byteSize (cs : List Char) : cs.length ≤ byteSize cs := by
  induction cs with
  | nil => exact Nat.le_refl 0
  | cons c cs ih =>
    have := c.utf8Size_pos
    simp only [List.length_cons, byteSize]
    omega

/-- The bytes of a text are those of its parts. -/
theorem byteSize_take_add_drop (n : Nat) (cs : List Char) :
    byteSize (cs.take n) + byteSize (cs.drop n) = byteSize cs := by
  rw [← byteSize_append, List.take_append_drop]

/-- The column reached from `column` over the blanks a line starts with. -/
def leadingColumn (tabSize : Nat) : (column : Nat) → List Char → Nat
  | column, [] => column
  | column, c :: cs =>
    if c = ' ' then leadingColumn tabSize (column + 1) cs
    else if c = '\t' then leadingColumn tabSize (column + (tabSize - column % tabSize)) cs
    else column

/-- A place whose line indentation is compared with. -/
structure Reference where
  /-- The offset of the place. -/
  index : Nat
  /-- The column of its line. -/
  column : Nat
  deriving DecidableEq

/-- A place in a source, between the characters behind it and those ahead. -/
structure Cursor where
  /-- The characters behind, the nearest first. -/
  before : List Char
  /-- The characters ahead. -/
  rest : List Char
  /-- The offset of the place. -/
  index : Nat
  /-- The number of bytes ahead. -/
  remaining : Nat
  /-- The place whose line indentation is compared with. -/
  reference : Reference
  /-- The distance of tab stops. -/
  tabSize : Nat
  /-- The offset counts the bytes behind. -/
  index_eq : index = byteSize before
  /-- What is ahead is counted right. -/
  remaining_eq : remaining = byteSize rest
  /-- Tab stops are apart. -/
  tabSize_pos : 0 < tabSize

namespace Cursor

/-- The start of a source. A tab size of zero counts as one. -/
def ofChars (source : List Char) (tabSize : Nat) : Cursor where
  before := []
  rest := source
  index := 0
  remaining := byteSize source
  reference := ⟨0, leadingColumn (max tabSize 1) 1 source⟩
  tabSize := max tabSize 1
  index_eq := rfl
  remaining_eq := rfl
  tabSize_pos := by omega

/-- Is nothing ahead? -/
def atEnd (c : Cursor) : Bool := c.rest.isEmpty

/-- The character ahead. -/
def peek? (c : Cursor) : Option Char := c.rest.head?

/-- Moves over `n` characters, or to the end of the source. -/
def skip (n : Nat) (c : Cursor) : Cursor where
  before := (c.rest.take n).reverse ++ c.before
  rest := c.rest.drop n
  index := c.index + byteSize (c.rest.take n)
  remaining := c.remaining - byteSize (c.rest.take n)
  reference := c.reference
  tabSize := c.tabSize
  index_eq := by simp [c.index_eq, Nat.add_comm]
  remaining_eq := by
    have := byteSize_take_add_drop n c.rest
    have := c.remaining_eq
    omega
  tabSize_pos := c.tabSize_pos

/-- Moves over the longest run of characters in a class. -/
def skipWhile (p : Char → Bool) (c : Cursor) : Cursor := c.skip (c.rest.takeWhile p).length

/-- The number of characters that fit into so many bytes. -/
def fitting : (bytes : Nat) → List Char → Nat
  | _, [] => 0
  | bytes, c :: cs => if c.utf8Size ≤ bytes then fitting (bytes - c.utf8Size) cs + 1 else 0

/-- Moves ahead by so many bytes, or to the end of the source. -/
def advance (bytes : Nat) (c : Cursor) : Cursor := c.skip (fitting bytes c.rest)

/-- Takes a place as the reference. -/
def withReference (r : Reference) (c : Cursor) : Cursor := { c with reference := r }

/-- Is the cursor at the start of a line? -/
def atLineStart (c : Cursor) : Bool :=
  -- Nothing lies behind the start of the source.
  c.before.head?.all Text.isBreak

/-- Both sides of the place at offset `target`, going back from the one at `index`. -/
def splitBack (target : Nat) :
    (index : Nat) → (before rest : List Char) → List Char × List Char
  | _, [], rest => ([], rest)
  | index, c :: before, rest =>
    if target < index then splitBack target (index - c.utf8Size) before (c :: rest)
    else (c :: before, rest)

/-- Both sides of the place at offset `target`, going ahead from the one at `index`. -/
def splitAhead (target : Nat) :
    (index : Nat) → (before rest : List Char) → List Char × List Char
  | _, before, [] => (before, [])
  | index, before, c :: rest =>
    if index + c.utf8Size ≤ target then splitAhead target (index + c.utf8Size) (c :: before) rest
    else (before, c :: rest)

/-- Both sides of the place at an offset of the same source. -/
def split (c : Cursor) (offset : Nat) : List Char × List Char :=
  if offset < c.index then splitBack offset c.index c.before c.rest
  else splitAhead offset c.index c.before c.rest

/-- The column of the line that an offset lies on. -/
def columnAt (c : Cursor) (offset : Nat) : Nat :=
  let (before, rest) := c.split offset
  leadingColumn c.tabSize 1 ((before.takeWhile (!Text.isBreak ·)).reverse ++ rest)

/-- The column of the line that the cursor is on. -/
def column (c : Cursor) : Nat := c.columnAt c.index

/-- The place at an offset, as a reference. -/
def referenceAt (c : Cursor) (offset : Nat) : Reference := ⟨offset, c.columnAt offset⟩

/-- The place of the cursor, as a reference. -/
def here (c : Cursor) : Reference := c.referenceAt c.index

/-- Skipping adds the bytes of what is skipped to the offset. -/
@[simp] theorem index_skip (n : Nat) (c : Cursor) :
    (c.skip n).index = c.index + byteSize (c.rest.take n) := rfl

/-- Skipping keeps the reference. -/
@[simp] theorem reference_skip (n : Nat) (c : Cursor) : (c.skip n).reference = c.reference := rfl

/-- Skipping keeps the tab size. -/
@[simp] theorem tabSize_skip (n : Nat) (c : Cursor) : (c.skip n).tabSize = c.tabSize := rfl

/-- What is skipped is not ahead any more. -/
@[simp] theorem rest_skip (n : Nat) (c : Cursor) : (c.skip n).rest = c.rest.drop n := rfl

/-- Skipping leaves no more ahead. -/
theorem remaining_skip_le (n : Nat) (c : Cursor) : (c.skip n).remaining ≤ c.remaining :=
  Nat.sub_le _ _

/-- Skipping a character leaves less ahead. -/
theorem remaining_skip_lt {n : Nat} (hn : 0 < n) {c : Cursor} (h : c.rest ≠ []) :
    (c.skip n).remaining < c.remaining := by
  have h₁ := byteSize_take_add_drop n c.rest
  have h₂ := c.remaining_eq
  have h₃ := length_le_byteSize (c.rest.take n)
  have h₄ : 0 < c.rest.length := List.length_pos_iff.2 h
  simp only [List.length_take] at h₃
  simp only [skip]
  omega

end Cursor

end Dialogue
