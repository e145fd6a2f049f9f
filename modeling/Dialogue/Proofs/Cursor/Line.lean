import Dialogue.Proofs.Cursor.Place

/-!
# Lines of a source

The line that a cursor is on lies on both sides of it. Its column depends on nothing but its
characters (`Cursor.column_eq`), so it is the same at every place of the line
(`Cursor.column_skip_one`).

A cursor *leads* if nothing but white space lies behind it on its line. If it does and no white
space is next, it *starts* its line: what is next is the first thing there.
-/

namespace Dialogue.Cursor

variable {c d : Cursor} {x : Char} {xs : List Char}

/-- A cursor is what lies behind and ahead, with a reference and tab stops. -/
theorem eq_of_sides (hbefore : c.before = d.before) (hrest : c.rest = d.rest)
    (href : c.reference = d.reference) (htab : c.tabSize = d.tabSize) : c = d := by
  obtain ⟨_, _, _, _, _, _, hi, hm, _⟩ := c
  obtain ⟨_, _, _, _, _, _, hi', hm', _⟩ := d
  subst hi hm hi' hm'
  cases hbefore
  cases hrest
  cases href
  cases htab
  rfl

/-- Skipping nothing stays where it is. -/
@[simp] theorem skip_zero (c : Cursor) : c.skip 0 = c := eq_of_sides rfl rfl rfl rfl

/-- Skipping twice is skipping once as far. -/
theorem skip_skip (m n : Nat) (c : Cursor) : (c.skip m).skip n = c.skip (m + n) := by
  refine eq_of_sides ?_ (List.drop_drop ..) rfl rfl
  change ((c.rest.drop m).take n).reverse ++ ((c.rest.take m).reverse ++ c.before) = _
  rw [← List.append_assoc, ← List.reverse_append, ← List.take_add]
  rfl

/-- What is skipped is behind the cursor then. -/
theorem before_skip (n : Nat) (c : Cursor) :
    (c.skip n).before = (c.rest.take n).reverse ++ c.before := rfl

/-- A character that is skipped is the nearest one behind. -/
theorem before_skip_one (h : c.rest = x :: xs) : (c.skip 1).before = x :: c.before := by
  rw [before_skip, h]
  rfl

/-- What is behind a character is ahead then. -/
theorem rest_skip_one (h : c.rest = x :: xs) : (c.skip 1).rest = xs := by
  rw [rest_skip, h]
  rfl

/-- What is behind some text is ahead then. -/
theorem rest_skip_append {w ys : List Char} (h : c.rest = w ++ ys) :
    (c.skip w.length).rest = ys := by
  rw [rest_skip, h, List.drop_left]

/-- A run that is skipped is behind the cursor then. -/
theorem before_skipWhile (p : Char → Bool) (c : Cursor) :
    (c.skipWhile p).before = (c.rest.takeWhile p).reverse ++ c.before := by
  rw [skipWhile, before_skip, ← List.prefix_iff_eq_take.1 (List.takeWhile_prefix p)]

/-- What is behind a run is ahead then. -/
theorem rest_skipWhile (p : Char → Bool) (c : Cursor) :
    (c.skipWhile p).rest = c.rest.dropWhile p :=
  c.rest_skip_append List.takeWhile_append_dropWhile.symm

/-- Nothing is taken where no character of the class is next. -/
theorem skipWhile_of_head {p : Char → Bool} (h : ∀ x ∈ c.rest.head?, p x = false) :
    c.skipWhile p = c := by
  have hnone : c.rest.takeWhile p = [] := by
    cases hrest : c.rest with
    | nil => rfl
    | cons x xs => exact List.takeWhile_cons_of_neg (by simp [h x (by rw [hrest]; rfl)])
  rw [skipWhile, hnone, List.length_nil, skip_zero]

/-- Behind a run of a class no more of it is ahead. -/
theorem skipWhile_skipWhile (p : Char → Bool) (c : Cursor) :
    (c.skipWhile p).skipWhile p = c.skipWhile p := by
  refine skipWhile_of_head fun x hx => ?_
  have h := List.head?_dropWhile_not p c.rest
  rw [← rest_skipWhile, Option.mem_def.1 hx] at h
  simpa using h

/-- Some of a run may be taken first. -/
theorem skipWhile_skip {p : Char → Bool} {w ys : List Char} (h : c.rest = w ++ ys)
    (hw : ∀ x ∈ w, p x) : (c.skip w.length).skipWhile p = c.skipWhile p := by
  rw [skipWhile, rest_skip_append h, skip_skip, skipWhile, h, List.takeWhile_append_of_pos hw,
    List.length_append]

/-- A character of a run may be skipped before the rest of it. -/
theorem skipWhile_skip_one {p : Char → Bool} (h : c.rest = x :: xs) (hx : p x) :
    (c.skip 1).skipWhile p = c.skipWhile p :=
  skipWhile_skip (w := [x]) h fun _ hy => List.mem_singleton.1 hy ▸ hx

/-- What lies behind the cursor on its line, the nearest character first. -/
def behind (c : Cursor) : List Char := c.before.takeWhile (!Text.isBreak ·)

/-- A character of the line is behind on the line once it is skipped. -/
theorem behind_skip_one (h : c.rest = x :: xs) (hx : Text.isBreak x = false) :
    (c.skip 1).behind = x :: c.behind := by
  rw [behind, before_skip_one h, List.takeWhile_cons_of_pos (by simp [hx])]
  rfl

/-- Text without a line break is behind on the line once it is skipped. -/
theorem behind_skip_append {w ys : List Char} (h : c.rest = w ++ ys)
    (hw : ∀ x ∈ w, Text.isBreak x = false) :
    (c.skip w.length).behind = w.reverse ++ c.behind := by
  rw [behind, before_skip, h, List.take_left, List.takeWhile_append_of_pos]
  · rfl
  · exact fun x hx => by simp [hw x (List.mem_reverse.1 hx)]

/-- The column of the line is counted on what lies behind and ahead of the cursor. -/
theorem column_eq (c : Cursor) :
    c.column = leadingColumn c.tabSize 1 (c.behind.reverse ++ c.rest) := by
  have hsplit : c.split c.index = (c.before, c.rest) := by
    rw [c.index_eq, ← byteSize_reverse, split_eq (rfl : c.source = c.before.reverse ++ c.rest),
      List.reverse_reverse]
  rw [column, columnAt, hsplit]
  rfl

/-- The column is that of the whole line. -/
theorem column_skip_one (h : c.rest = x :: xs) (hx : Text.isBreak x = false) :
    (c.skip 1).column = c.column := by
  rw [column_eq, column_eq, behind_skip_one h hx, rest_skip_one h, h, List.reverse_cons,
    List.append_assoc, List.singleton_append]
  rfl

/-- The column is the same all over a line. -/
theorem column_skip_append {w ys : List Char} (h : c.rest = w ++ ys)
    (hw : ∀ x ∈ w, Text.isBreak x = false) : (c.skip w.length).column = c.column := by
  rw [column_eq, column_eq, behind_skip_append h hw, rest_skip_append h, h, List.reverse_append,
    List.reverse_reverse, List.append_assoc]
  rfl

/-- At the start of a line nothing lies behind. -/
theorem behind_of_atLineStart (h : c.atLineStart) : c.behind = [] := by
  rw [atLineStart] at h
  rw [behind]
  cases hbefore : c.before with
  | nil => rfl
  | cons x xs =>
    rw [hbefore] at h
    exact List.takeWhile_cons_of_neg (by simpa using h)

/-- A line starts behind a line break. -/
theorem atLineStart_skip_one (h : c.rest = x :: xs) : (c.skip 1).atLineStart = Text.isBreak x := by
  rw [atLineStart, before_skip_one h]
  rfl

/-- Behind a character of the line there is no start of a line. -/
theorem not_atLineStart_skip {w ys : List Char} (h : c.rest = w ++ ys)
    (hw : ∀ x ∈ w, Text.isBreak x = false) (hne : w ≠ []) : ¬(c.skip w.length).atLineStart := by
  rw [atLineStart, before_skip, h, List.take_left]
  cases hrev : w.reverse with
  | nil => exact absurd (List.reverse_eq_nil_iff.1 hrev) hne
  | cons x v => simp [hw x (List.mem_reverse.1 (hrev ▸ List.mem_cons_self))]

/-- Nothing but white space lies behind on the line. -/
def Leads (c : Cursor) : Prop := ∀ x ∈ c.behind, Text.isSpace x

/-- What leads behind a character led before it, and that was white space. -/
theorem Leads.of_skip_one (hl : (c.skip 1).Leads) (h : c.rest = x :: xs)
    (hx : Text.isBreak x = false) : Text.isSpace x ∧ c.Leads := by
  rw [Leads, behind_skip_one h hx] at hl
  exact List.forall_mem_cons.1 hl

/-- Behind the first thing on a line nothing leads. -/
theorem not_leads_skip_one (h : c.rest = x :: xs) (hx : Text.isSpace x = false) :
    ¬(c.skip 1).Leads := by
  intro hl
  have hbreak : Text.isBreak x = false :=
    Bool.eq_false_iff.2 fun hb => by simp [Text.isSpace_of_isBreak hb] at hx
  have hspace := (hl.of_skip_one h hbreak).1
  rw [hx] at hspace
  cases hspace

/-- The first thing on the line is next. -/
structure StartsLine (c : Cursor) : Prop where
  /-- Nothing is before it on the line. -/
  leads : c.Leads
  /-- It is no white space. -/
  next : ∃ x xs, c.rest = x :: xs ∧ Text.isSpace x = false

end Dialogue.Cursor
