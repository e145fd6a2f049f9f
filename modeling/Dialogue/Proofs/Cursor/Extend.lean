import Dialogue.Proofs.Cursor.Layout

/-!
# A source that goes on

A source that ends with a line break may stand before another one. Where something is left of
it, the line ahead is the same in both (`Cursor.Extended.line`). Its blank lines at the end run
on into those that the other source starts with, so behind them the one source has ended and
the other one starts (`Cursor.Passed`).
-/

namespace Dialogue

open Dialogue.Parser

/-- No white space but blanks and line breaks is in a text. -/
def Layout.Usual (cs : List Char) : Prop := ∀ x ∈ cs, Text.isSpace x → Text.isLayout x

/-- The first line that is not blank starts at the first column. -/
def Layout.AtMargin (cs : List Char) : Prop :=
  ∀ w x zs, cs = w ++ x :: zs → (∀ y ∈ w, Text.isLayout y) → Text.isLayout x = false →
    ∀ y ∈ w.getLast?, Text.isBreak y

/-- Whether characters are usual can be decided. -/
instance (cs : List Char) : Decidable (Layout.Usual cs) := List.decidableBAll _ cs

/-- A source is at the margin if it is blank, or its first line of text has no indentation. -/
theorem Layout.atMargin_iff {cs : List Char} : AtMargin cs ↔ cs.dropWhile Text.isLayout = [] ∨
    ∀ y ∈ (cs.takeWhile Text.isLayout).getLast?, Text.isBreak y := by
  constructor
  · intro h
    cases hrest : cs.dropWhile Text.isLayout with
    | nil => exact .inl rfl
    | cons x xs =>
      have hsplit := List.takeWhile_append_dropWhile (p := Text.isLayout) (l := cs)
      rw [hrest] at hsplit
      exact .inr <| h _ x xs hsplit.symm (List.all_eq_true.1 List.all_takeWhile)
        (head_dropWhile x (by rw [hrest]; rfl))
  · rintro h w x zs rfl hw hx
    rw [List.dropWhile_append_of_pos hw, List.dropWhile_cons_of_neg (by simp [hx]),
      List.takeWhile_append_of_pos hw, List.takeWhile_cons_of_neg (by simp [hx]),
      List.append_nil] at h
    exact h.resolve_left (List.cons_ne_nil x zs)

/-- Whether a source is at the margin can be decided. -/
instance (cs : List Char) : Decidable (Layout.AtMargin cs) :=
  haveI := Option.decidableForallMem (p := (Text.isBreak ·)) (cs.takeWhile Text.isLayout).getLast?
  decidable_of_iff _ Layout.atMargin_iff.symm

/-- Where white space is usual, what is first is the same if all white space may come before it. -/
theorem Layout.Usual.dropWhile {cs : List Char} (h : Usual cs) :
    cs.dropWhile Text.isSpace = cs.dropWhile Text.isLayout := by
  induction cs with
  | nil => rfl
  | cons x cs ih =>
    have hx : Text.isSpace x = Text.isLayout x := by
      rw [Bool.eq_iff_iff]
      refine ⟨h x List.mem_cons_self, fun hx => ?_⟩
      exact (Bool.or_eq_true_iff.1 hx).elim Text.isSpace_of_isBlank Text.isSpace_of_isBreak
    rw [List.dropWhile_cons, List.dropWhile_cons, hx,
      ih fun y hy => h y (List.mem_cons_of_mem x hy)]

namespace Cursor

variable {c d : Cursor} {more : List Char} {x : Char} {xs : List Char}

/-- A place of a source with something left before the line break at its end, and the same place
    if the source goes on. -/
structure Extended (more : List Char) (c d : Cursor) : Prop where
  /-- The second source goes on. -/
  rest : d.rest = c.rest ++ more
  /-- The same lies behind. -/
  before : d.before = c.before
  /-- Tab stops are the same. -/
  tabSize : d.tabSize = c.tabSize
  /-- The line break is ahead. -/
  ended : ∃ x ∈ c.rest.getLast?, Text.isBreak x
  /-- White space is usual. -/
  usual : Layout.Usual c.rest

namespace Extended

/-- Where a source goes on, something is left of it. -/
theorem ne_nil (h : c.Extended more d) : c.rest ≠ [] := by
  obtain ⟨x, hx, -⟩ := h.ended
  rintro hnil
  rw [hnil] at hx
  cases hx

/-- A line break is ahead, behind the line. -/
theorem split (h : c.Extended more d) : ∃ x xs, c.rest = c.line ++ x :: xs ∧ Text.isBreak x := by
  obtain ⟨ys, hrest, hys⟩ := c.rest_eq_line
  cases ys with
  | nil =>
    obtain ⟨x, hx, hbreak⟩ := h.ended
    rw [hrest, List.append_nil] at hx
    rw [not_isBreak_of_line (List.mem_of_getLast? hx)] at hbreak
    cases hbreak
  | cons x xs => exact ⟨x, xs, hrest, hys x rfl⟩

/-- The line ahead is the same in both. -/
theorem line (h : c.Extended more d) : c.line = d.line := by
  obtain ⟨x, xs, hrest, hx⟩ := h.split
  have hline : ∀ y ∈ c.line, (!Text.isBreak y) = true := fun y hy => by
    rw [not_isBreak_of_line hy]
    rfl
  conv => rhs; rw [Cursor.line, h.rest, hrest, List.append_assoc, List.cons_append]
  rw [List.takeWhile_append_of_pos hline, List.takeWhile_cons_of_neg (by simp [hx]),
    List.append_nil]

/-- Both skip the same, as long as something is left. -/
theorem skip (h : c.Extended more d) {n : Nat} (hne : (c.skip n).rest ≠ []) :
    (c.skip n).Extended more (d.skip n) := by
  have hle : n ≤ c.rest.length := by
    refine Nat.le_of_not_lt fun hlt => hne ?_
    rw [rest_skip, List.drop_eq_nil_iff]
    exact Nat.le_of_lt hlt
  refine ⟨?_, ?_, h.tabSize, ?_, fun x hx => h.usual x (List.mem_of_mem_drop hx)⟩
  · rw [rest_skip, h.rest, List.drop_append_of_le_length hle]
    rfl
  · rw [before_skip, before_skip, h.rest, h.before, List.take_append_of_le_length hle]
  · obtain ⟨x, hx, hbreak⟩ := h.ended
    refine ⟨x, ?_, hbreak⟩
    rw [rest_skip] at hne ⊢
    rw [List.getLast?_drop, if_neg fun h => hne (List.drop_eq_nil_iff.2 h)]
    exact hx

/-- A run that ends in the source is as long in both. -/
theorem skipWhile_eq (h : c.Extended more d) {p : Char → Bool} (hne : (c.skipWhile p).rest ≠ []) :
    d.skipWhile p = d.skip (c.rest.takeWhile p).length := by
  rw [rest_skipWhile] at hne
  rw [Cursor.skipWhile, h.rest]
  congr 2
  cases hdrop : c.rest.dropWhile p with
  | nil => exact absurd hdrop hne
  | cons x xs =>
    have hx : p x = false := head_dropWhile x (by rw [hdrop]; rfl)
    have hsplit : c.rest = c.rest.takeWhile p ++ x :: xs := by
      rw [← hdrop, List.takeWhile_append_dropWhile]
    conv => lhs; rw [hsplit, List.append_assoc, List.cons_append]
    rw [List.takeWhile_append_of_pos (List.all_eq_true.1 List.all_takeWhile),
      List.takeWhile_cons_of_neg (by simp [hx]), List.append_nil]

/-- Behind a run that ends in the source both go on. -/
theorem skipWhile (h : c.Extended more d) {p : Char → Bool} (hne : (c.skipWhile p).rest ≠ []) :
    (c.skipWhile p).Extended more (d.skipWhile p) := by
  rw [h.skipWhile_eq hne]
  exact h.skip hne

/-- A character that is not the line break at the end. -/
theorem skip_one (h : c.Extended more d) (hrest : c.rest = x :: xs) (hx : Text.isBreak x = false) :
    (c.skip 1).Extended more (d.skip 1) := by
  refine h.skip ?_
  rw [rest_skip_one hrest]
  rintro rfl
  obtain ⟨y, hy, hbreak⟩ := h.ended
  rw [hrest, List.getLast?_singleton] at hy
  cases hy
  rw [hx] at hbreak
  cases hbreak

/-- Other references change nothing of it. -/
theorem withReference (h : c.Extended more d) (r r' : Reference) :
    (c.withReference r).Extended more (d.withReference r') :=
  ⟨h.rest, h.before, h.tabSize, h.ended, h.usual⟩

/-- Both are at the start of a line, or neither is. -/
theorem atLineStart_eq (h : c.Extended more d) : d.atLineStart = c.atLineStart := by
  rw [atLineStart, atLineStart, h.before]

/-- Both have the same column. -/
theorem column_eq (h : c.Extended more d) : c.column = d.column := by
  obtain ⟨x, xs, hrest, hx⟩ := h.split
  have hbehind : d.behind = c.behind := by rw [behind, behind, h.before]
  rw [Cursor.column_eq, Cursor.column_eq, hbehind, h.rest, h.tabSize, hrest, List.append_assoc,
    ← List.append_assoc, ← List.append_assoc, List.cons_append]
  exact Layout.leadingColumn_append (Text.not_isBlank_of_isBreak hx) _ _ _

/-- A line ends in both sources or in none. -/
theorem endsLine_iff (h : c.Extended more d) : EndsLine c ↔ EndsLine d := by
  have hline : (c.skipWhile Text.isBlank).line = (d.skipWhile Text.isBlank).line := by
    rw [line_skipWhile fun _ => Text.not_isBreak_of_isBlank,
      line_skipWhile fun _ => Text.not_isBreak_of_isBlank, h.line]
  rw [EndsLine, EndsLine, h.atLineStart_eq, Blank, Blank, hline]

end Extended

/-- The end of the source, and behind its blank lines the place where the other source starts. -/
structure Passed (more : List Char) (c d : Cursor) : Prop where
  /-- The first source ends. -/
  ended : c.rest = []
  /-- The other one is ahead. -/
  rest : d.rest = more.drop (blankLength more)
  /-- Its blank lines lie behind. -/
  before : d.before = (more.take (blankLength more)).reverse ++ c.before
  /-- Tab stops are the same. -/
  tabSize : d.tabSize = c.tabSize
  /-- The line break at the end lies behind. -/
  last : ∃ x ∈ c.before.head?, Text.isBreak x

/-- Other references change nothing of where a source has passed. -/
theorem Passed.withReference (h : c.Passed more d) (r r' : Reference) :
    (c.withReference r).Passed more (d.withReference r') :=
  ⟨h.ended, h.rest, h.before, h.tabSize, h.last⟩

/-- Behind a source that has passed, a line starts. -/
theorem Passed.behind_eq (h : c.Passed more d) : c.behind = [] := by
  obtain ⟨x, hx, hbreak⟩ := h.last
  refine behind_of_atLineStart ?_
  rw [atLineStart, Option.mem_def.1 hx]
  exact hbreak

/-- No blank lines are left behind those that are next. -/
theorem blankLength_drop (cs : List Char) : blankLength (cs.drop (blankLength cs)) = 0 := by
  obtain ⟨b, hb, hdrop, hnil⟩ := drop_blankLength cs
  rw [hdrop]
  cases hrest : cs.dropWhile Text.isLayout with
  | nil =>
    rw [hnil hrest]
    rfl
  | cons x xs =>
    have hx : Text.isLayout x = false := head_dropWhile x (by rw [hrest]; rfl)
    rw [blankLength, if_neg]
    · exact breaksLength_of_blanks hb (by rintro _ ⟨⟩; exact hx)
    · rw [List.all_eq_true]
      exact fun h => by simp [h x (by simp)] at hx

/-- The next blank lines are those of the other source, and they lie behind already. -/
theorem Passed.skip_blankLength (h : c.Passed more d) :
    (c.skip (blankLength c.rest)).Passed more (d.skip (blankLength d.rest)) := by
  have hnone : blankLength d.rest = 0 := by rw [h.rest, blankLength_drop]
  rw [hnone, skip_zero]
  refine ⟨?_, h.rest, ?_, h.tabSize, ?_⟩
  · rw [rest_skip, h.ended, List.drop_nil]
  · rw [before_skip, h.ended, List.take_nil]
    exact h.before
  · rw [before_skip, h.ended, List.take_nil]
    exact h.last

/-- Behind the end the two sources are one. -/
theorem Passed.source (h : c.Passed more d) : d.source = c.source ++ more := by
  rw [Cursor.source, Cursor.source, h.ended, h.before, h.rest, List.reverse_append,
    List.reverse_reverse, List.append_assoc, List.take_append_drop, List.append_nil]

/-- A line that is not indented has the first column. -/
theorem column_of_atLineStart (h : c.atLineStart) (hrest : c.rest = x :: xs)
    (hx : Text.isBlank x = false) : c.column = 1 := by
  rw [Cursor.column_eq, behind_of_atLineStart h, hrest]
  simp only [Text.isBlank, Bool.or_eq_false_iff, decide_eq_false_iff_not] at hx
  simp [leadingColumn, hx]

/-- The other source starts at the start of a line, or behind its indentation. -/
theorem Passed.starts (h : c.Passed more d) (hmore : Layout.AtMargin more) :
    d.rest = [] ∨ d.atLineStart ∧ (d.skipWhile Text.isBlank).column = 1 := by
  obtain ⟨b, hb, hdrop, hnil⟩ := drop_blankLength more
  cases hrest : more.dropWhile Text.isLayout with
  | nil =>
    refine .inl ?_
    rw [h.rest, hdrop, hnil hrest, hrest]
    rfl
  | cons x xs =>
    have hx : Text.isLayout x = false := head_dropWhile x (by rw [hrest]; rfl)
    have hsplit : more = more.takeWhile Text.isLayout ++ x :: xs := by
      rw [← hrest, List.takeWhile_append_dropWhile]
    have hlast := hmore _ x xs hsplit (List.all_eq_true.1 List.all_takeWhile) hx
    -- The first line is not indented, so all the white space before it is blank lines.
    have htake : more.take (blankLength more) ++ b = more.takeWhile Text.isLayout := by
      refine List.append_cancel_right (?_ : _ ++ (x :: xs) = _)
      rw [← hsplit, List.append_assoc, ← hrest, ← hdrop, List.take_append_drop]
    have hb : b = [] := by
      cases hlist : b.getLast? with
      | none => exact List.getLast?_eq_none_iff.1 hlist
      | some y =>
        have hy : y ∈ (more.takeWhile Text.isLayout).getLast? := by
          rw [← htake, List.getLast?_append, hlist]
          rfl
        have hbreak := hlast y hy
        rw [Text.not_isBreak_of_isBlank (hb y (List.mem_of_getLast? hlist))] at hbreak
        cases hbreak
    rw [hb, List.append_nil] at htake
    have hd : d.rest = x :: xs := by rw [h.rest, hdrop, hb, hrest]; rfl
    have hstart : d.atLineStart := by
      rw [atLineStart, h.before, htake, List.head?_append, List.head?_reverse]
      cases hy : (more.takeWhile Text.isLayout).getLast? with
      | none =>
        obtain ⟨y, hy, hbreak⟩ := h.last
        rw [Option.mem_def.1 hy]
        exact hbreak
      | some y => exact hlast y hy
    obtain ⟨hblank, -⟩ := Bool.or_eq_false_iff.1 hx
    refine .inr ⟨hstart, ?_⟩
    rw [skipWhile_of_head (by rw [hd]; rintro _ ⟨⟩; exact hblank)]
    exact column_of_atLineStart hstart hd hblank

/-- Lines are left, with something on them. -/
def Full (c : Cursor) : Prop := c.rest.dropWhile Text.isLayout ≠ []

/-- What is left without a full line is layout. -/
theorem isLayout_of_not_full (h : ¬c.Full) : ∀ x ∈ c.rest, Text.isLayout x := by
  have hsplit := List.takeWhile_append_dropWhile (p := Text.isLayout) (l := c.rest)
  rw [Classical.not_not.1 h, List.append_nil] at hsplit
  rw [← hsplit]
  exact List.all_eq_true.1 List.all_takeWhile

/-- Before a full line the blank lines end with a break. -/
theorem Full.blankLength_eq (h : c.Full) : blankLength c.rest = breaksLength c.rest :=
  if_neg fun hall => h (dropWhile_of_all (List.all_eq_true.1 hall))

/-- Behind the end of a line the next one starts. -/
theorem Full.atLineStart_skip (hfull : c.Full) (h : EndsLine c) :
    (c.skip (blankLength c.rest)).atLineStart := by
  have hlength : blankLength c.rest = breaksLength c.rest := hfull.blankLength_eq
  by_cases hzero : breaksLength c.rest = 0
  · rw [hlength, hzero, skip_zero]
    refine h.resolve_right fun hblank => ?_
    -- What is left of a blank line is taken up to its break.
    obtain ⟨ys, hys, hbreak⟩ := (c.skipWhile Text.isBlank).rest_eq_line
    rw [show (c.skipWhile Text.isBlank).line = [] from hblank, List.nil_append,
      rest_skipWhile] at hys
    have hsplit : c.rest = c.rest.takeWhile Text.isBlank ++ ys := by
      rw [← hys, List.takeWhile_append_dropWhile]
    have hblanks : ∀ x ∈ c.rest.takeWhile Text.isBlank, Text.isLayout x := fun x hx =>
      Text.isLayout_of_isBlank (List.all_eq_true.1 List.all_takeWhile x hx)
    cases ys with
    | nil =>
      refine hfull (dropWhile_of_all fun x hx => hblanks x ?_)
      rwa [hsplit, List.append_nil] at hx
    | cons y ys =>
      rw [hsplit, breaksLength_append hblanks (hbreak y rfl)] at hzero
      omega
  · let run := c.rest.takeWhile Text.isLayout
    have htake : c.rest.take (breaksLength c.rest) =
        (run.reverse.dropWhile Text.isBlank).reverse := by
      have hrun : run = (run.reverse.dropWhile Text.isBlank).reverse ++
          (run.reverse.takeWhile Text.isBlank).reverse := by
        rw [← List.reverse_append, List.takeWhile_append_dropWhile, List.reverse_reverse]
      have hrest : c.rest = run ++ c.rest.dropWhile Text.isLayout :=
        List.takeWhile_append_dropWhile.symm
      rw [hrun, List.append_assoc] at hrest
      conv => lhs; arg 2; rw [hrest]
      exact List.take_left' (by rw [List.length_reverse]; rfl)
    rw [hlength, atLineStart, before_skip, htake, List.reverse_reverse]
    cases hlast : run.reverse.dropWhile Text.isBlank with
    | nil =>
      rw [breaksLength, hlast] at hzero
      exact absurd rfl hzero
    | cons x xs =>
      have hblank : Text.isBlank x = false := head_dropWhile x (by rw [hlast]; rfl)
      have hx : x ∈ run.reverse := (List.dropWhile_suffix _).mem (hlast ▸ List.mem_cons_self)
      have hlayout := List.all_eq_true.1 List.all_takeWhile x (List.mem_reverse.1 hx)
      rw [Text.isLayout, hblank, Bool.false_or] at hlayout
      exact hlayout

namespace Extended

/-- Where lines are left, the blank lines that are next are the same. -/
theorem skip_blankLength (h : c.Extended more d) (hfull : c.Full) :
    (c.skip (blankLength c.rest)).Extended more (d.skip (blankLength d.rest)) ∧
      (c.skip (blankLength c.rest)).Full := by
  have hlayout {cs : List Char} (hcs : cs.dropWhile Text.isLayout ≠ []) :
      blankLength cs = breaksLength cs :=
    if_neg fun hall => hcs (dropWhile_of_all (List.all_eq_true.1 hall))
  have hdrop : d.rest.dropWhile Text.isLayout = c.rest.dropWhile Text.isLayout ++ more := by
    rw [h.rest, List.dropWhile_append, if_neg]
    rwa [List.isEmpty_iff]
  -- Behind the blank lines something is left in the first text, so they are not longer in the
  -- second.
  have hsame : blankLength d.rest = blankLength c.rest := by
    have hne : d.rest.dropWhile Text.isLayout ≠ [] := by
      rw [hdrop]
      exact fun hnil => hfull (List.append_eq_nil_iff.1 hnil).1
    rw [hlayout hne, hlayout hfull, breaksLength, breaksLength]
    congr 3
    refine List.append_cancel_right (?_ : _ ++ d.rest.dropWhile Text.isLayout = _)
    rw [List.takeWhile_append_dropWhile, hdrop, ← List.append_assoc,
      List.takeWhile_append_dropWhile, h.rest]
  obtain ⟨b, hb, hrest, -⟩ := drop_blankLength c.rest
  have hfull' : (c.skip (blankLength c.rest)).Full := by
    rw [Full, Cursor.rest_skip, hrest,
      List.dropWhile_append_of_pos fun x hx => Text.isLayout_of_isBlank (hb x hx),
      ← c.rest_skipWhile, ← rest_skipWhile, skipWhile_skipWhile, rest_skipWhile]
    exact hfull
  rw [hsame]
  exact ⟨h.skip fun hnil => hfull' (by rw [hnil]; rfl), hfull'⟩

/-- Where none are left the end of the source is passed. -/
theorem pass (h : c.Extended more d) (hfull : ¬c.Full) :
    (c.skip (blankLength c.rest)).Passed more (d.skip (blankLength d.rest)) := by
  have hall : ∀ x ∈ c.rest, Text.isLayout x := isLayout_of_not_full hfull
  obtain ⟨x, hx, hbreak⟩ := h.ended
  obtain ⟨w, hw⟩ := List.getLast?_eq_some_iff.1 hx
  have hd : d.rest = w ++ x :: more := by rw [h.rest, hw, List.append_assoc]; rfl
  have hlength : blankLength d.rest = c.rest.length + blankLength more := by
    rw [hd, blankLength_append (fun y hy => hall y (by rw [hw]; simp [hy])) hbreak, hw]
    simp
  have hc : blankLength c.rest = c.rest.length := if_pos (List.all_eq_true.2 hall)
  rw [hc, hlength]
  refine ⟨?_, ?_, ?_, h.tabSize, x, ?_, hbreak⟩
  · rw [rest_skip, List.drop_length]
  · rw [rest_skip, h.rest, List.drop_append, List.drop_eq_nil_of_le (Nat.le_add_right _ _)]
    simp
  · rw [before_skip, before_skip, h.rest, h.before, List.take_length, List.take_append,
      List.take_of_length_le (Nat.le_add_right _ _)]
    simp
  · rw [before_skip, List.take_length, hw]
    simp

end Extended

end Cursor

end Dialogue
