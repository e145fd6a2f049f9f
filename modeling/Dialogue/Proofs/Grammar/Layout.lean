import Dialogue.Proofs.Cursor.Layout
import Dialogue.Proofs.Grammar.Follow

/-!
# Sources of plain layout
-/

namespace Dialogue

open Dialogue.Parser

namespace Layout

variable {c d : Cursor} {x : Char} {w cs : List Char}

/-- Lines start at both places, and the second source has plain layout ahead. -/
structure Starts (c d : Cursor) : Prop where
  /-- A line starts in the first source. -/
  start : c.atLineStart
  /-- A line starts in the second source. -/
  start' : d.atLineStart
  /-- The same is ahead, with plain layout. -/
  rest : d.rest = plain c.tabSize c.rest
  /-- Tab stops are the same. -/
  tabSize : d.tabSize = c.tabSize
  /-- No quotes are ahead. -/
  unquoted : '"' ∉ c.rest

/-- The places are on corresponding lines, behind the same characters that are no blanks. -/
structure Inside (c d : Cursor) : Prop where
  /-- The same is ahead, with plain layout on the further lines. -/
  rest : d.rest = rest c.tabSize c.rest
  /-- Tab stops are the same. -/
  tabSize : d.tabSize = c.tabSize
  /-- No quotes are ahead. -/
  unquoted : '"' ∉ c.rest
  /-- The lines have the same column. -/
  column : c.rest ≠ [] → c.column = d.column
  /-- If one is the start of a line, both are. -/
  starts : c.rest ≠ [] → c.atLineStart ∨ d.atLineStart → Starts c d

/-- Places at the start of a line stay so with other references. -/
theorem Starts.withReference (h : Starts c d) (r r' : Reference) :
    Starts (c.withReference r) (d.withReference r') :=
  ⟨h.start, h.start', h.rest, h.tabSize, h.unquoted⟩

/-- Places within a line stay so with other references. -/
theorem Inside.withReference (h : Inside c d) (r r' : Reference) :
    Inside (c.withReference r) (d.withReference r') :=
  ⟨h.rest, h.tabSize, h.unquoted, h.column,
    fun hne hstart => (h.starts hne hstart).withReference r r'⟩

/-! ## Steps -/

/-- Both sources end at the same time. -/
theorem Inside.nil (h : Inside c d) : c.rest = [] ↔ d.rest = [] := by
  rw [h.rest]
  cases c.rest with
  | nil => simp
  | cons x cs =>
    cases hx : Text.isBreak x with
    | false => simp [rest_cons hx]
    | true =>
      obtain ⟨_, _, zs, -, -, -, hrest⟩ := rest_break (t := c.tabSize) hx cs
      simp [hrest]

/-- Up to its end, a line is the same in plain layout. -/
theorem takeWhile_rest (t : Nat) (cs : List Char) :
    (Layout.rest t cs).takeWhile (!Text.isBreak ·) = cs.takeWhile (!Text.isBreak ·) := by
  induction cs with
  | nil => rw [rest_nil]
  | cons x cs ih =>
    cases hx : Text.isBreak x with
    | false =>
      rw [rest_cons hx, List.takeWhile_cons_of_pos (by simp [hx]),
        List.takeWhile_cons_of_pos (by simp [hx]), ih]
    | true =>
      obtain ⟨_, _, zs, -, -, -, hrest⟩ := rest_break (t := t) hx cs
      rw [hrest, List.takeWhile_cons_of_neg (by decide), List.takeWhile_cons_of_neg (by simp [hx])]

/-- The line ahead is the same in both. -/
theorem Inside.line (h : Inside c d) : c.line = d.line := by
  rw [Cursor.line, Cursor.line, h.rest, takeWhile_rest]

/-- At the end of both sources, both are within the same line. -/
theorem Inside.of_end (hc : c.rest = []) (hd : d.rest = []) (htab : d.tabSize = c.tabSize) :
    Inside c d := by
  refine ⟨by rw [hc, hd, rest_nil], htab, by simp [hc], fun h => absurd hc h, fun h => absurd hc h⟩

/-- A character of the line. -/
theorem Inside.skip_one (h : Inside c d) (hrest : c.rest = x :: cs) (hx : Text.isBreak x = false) :
    d.rest = x :: Layout.rest c.tabSize cs ∧ Inside (c.skip 1) (d.skip 1) := by
  have hd : d.rest = x :: Layout.rest c.tabSize cs := by rw [h.rest, hrest, rest_cons hx]
  refine ⟨hd, ?_, h.tabSize, ?_, fun _ => ?_, fun _ hstart => ?_⟩
  · rw [Cursor.rest_skip_one hd, Cursor.rest_skip_one hrest]
    rfl
  · rw [Cursor.rest_skip_one hrest]
    exact fun hq => h.unquoted (hrest ▸ List.mem_cons_of_mem x hq)
  · rw [Cursor.column_skip_one hrest hx, Cursor.column_skip_one hd hx]
    exact h.column (by rw [hrest]; exact List.cons_ne_nil x cs)
  · rw [Cursor.atLineStart_skip_one hrest, Cursor.atLineStart_skip_one hd, hx] at hstart
    exact hstart.elim nofun nofun

/-- The end of the line. -/
theorem Inside.skip_break (h : Inside c d) (hrest : c.rest = x :: cs) (hx : Text.isBreak x) :
    ∃ w z zs, c.rest = w ++ z :: zs ∧ (∀ y ∈ w, Text.isBreak y) ∧ Text.isBreak z ∧
      d.rest = '\n' :: plain c.tabSize zs ∧ Starts (c.skip (w.length + 1)) (d.skip 1) := by
  obtain ⟨w, z, zs, hcs, hw, hz, hplain⟩ := rest_break (t := c.tabSize) hx cs
  have hc : c.rest = w ++ z :: zs := hrest.trans hcs
  have hd : d.rest = '\n' :: plain c.tabSize zs := by rw [h.rest, hrest, hplain]
  have hlast : (c.skip w.length).rest = z :: zs := Cursor.rest_skip_append hc
  refine ⟨w, z, zs, hc, hw, hz, hd, ?_⟩
  rw [← Cursor.skip_skip]
  refine ⟨?_, ?_, ?_, h.tabSize, ?_⟩
  · rwa [Cursor.atLineStart_skip_one hlast]
  · rw [Cursor.atLineStart_skip_one hd]
    rfl
  · rw [Cursor.rest_skip_one hd, Cursor.rest_skip_one hlast]
    rfl
  · rw [Cursor.rest_skip_one hlast]
    exact fun hq => h.unquoted (by rw [hc]; simp [hq])

/-- A blank line is only in the first source. -/
theorem Starts.skip_blank (h : Starts c d) (hrest : c.rest = w ++ x :: cs)
    (hw : ∀ y ∈ w, Text.isBlank y) (hx : Text.isBreak x) :
    ∃ v z zs, c.rest = v ++ z :: zs ∧ (∀ y ∈ v, Text.isLayout y) ∧ Text.isBreak z ∧
      Starts (c.skip (v.length + 1)) d := by
  obtain ⟨v, z, zs, hcs, hv, hz, hplain⟩ := plain_blank_line (t := c.tabSize) hw hx cs
  have hc : c.rest = (w ++ v) ++ z :: zs := by rw [hrest, hcs, List.append_assoc]
  have hlast : (c.skip (w ++ v).length).rest = z :: zs := Cursor.rest_skip_append hc
  refine ⟨w ++ v, z, zs, hc, fun y hy => ?_, hz, ?_⟩
  · exact (List.mem_append.1 hy).elim (fun h => Text.isLayout_of_isBlank (hw y h)) fun h =>
      Text.isLayout_of_isBreak (hv y h)
  rw [← Cursor.skip_skip]
  refine ⟨?_, h.start', ?_, h.tabSize, ?_⟩
  · rwa [Cursor.atLineStart_skip_one hlast]
  · rw [Cursor.rest_skip_one hlast, h.rest, hrest, hplain]
    rfl
  · rw [Cursor.rest_skip_one hlast]
    exact fun hq => h.unquoted (by rw [hc]; simp [hq])

/-- Each space of an indentation is one column. -/
theorem leadingColumn_spaces {t k n : Nat} (hx : Text.isBlank x = false) (cs : List Char) :
    leadingColumn t k (List.replicate n ' ' ++ x :: cs) = k + n := by
  induction n generalizing k with
  | zero =>
    simp only [Text.isBlank, Bool.or_eq_false_iff, decide_eq_false_iff_not] at hx
    simp [leadingColumn, hx]
  | succ n ih =>
    rw [List.replicate_succ, List.cons_append, leadingColumn, if_pos rfl, ih]
    omega

/-- Blanks lead to a greater column. -/
theorem lt_leadingColumn {t k : Nat} (ht : 0 < t) (hw : ∀ y ∈ w, Text.isBlank y) (hne : w ≠ [])
    (cs : List Char) : k < leadingColumn t k (w ++ cs) := by
  cases w with
  | nil => exact absurd rfl hne
  | cons y w =>
    have hy := hw y List.mem_cons_self
    simp only [Text.isBlank, Bool.or_eq_true, decide_eq_true_eq] at hy
    rw [List.cons_append, leadingColumn]
    rcases hy with rfl | rfl
    · exact le_leadingColumn t (k + 1) _
    · have hmod := Nat.mod_lt k ht
      rw [if_neg (by decide), if_pos rfl]
      exact Nat.lt_of_lt_of_le (by omega) (le_leadingColumn t (k + (t - k % t)) _)

/-- The indentation of a line. -/
theorem Starts.skip_indent (h : Starts c d) (hrest : c.rest = w ++ x :: cs)
    (hw : ∀ y ∈ w, Text.isBlank y) (hx : Text.isLayout x = false) :
    ∃ n, d.rest = List.replicate n ' ' ++ Layout.rest c.tabSize (x :: cs) ∧
      Inside (c.skip w.length) (d.skip n) := by
  obtain ⟨hblank, hbreak⟩ := Bool.or_eq_false_iff.1 hx
  -- The blanks of the line are spaces in the other source, as many as they are columns wide.
  let n := leadingColumn c.tabSize 1 (w ++ x :: cs) - 1
  have hn : ∀ y ∈ List.replicate n ' ', Text.isBlank y := fun y hy => by
    rw [List.eq_of_mem_replicate hy]
    rfl
  have hd : d.rest = List.replicate n ' ' ++ Layout.rest c.tabSize (x :: cs) := by
    rw [h.rest, hrest, plain_line hw hx]
  have hline {v : List Char} (hv : ∀ y ∈ v, Text.isBlank y) : ∀ y ∈ v, Text.isBreak y = false :=
    fun y hy => Text.not_isBreak_of_isBlank (hv y hy)
  have hskip : d.skip n = d.skip (List.replicate n ' ').length := by rw [List.length_replicate]
  refine ⟨n, hd, ?_⟩
  rw [hskip]
  refine ⟨?_, h.tabSize, ?_, fun _ => ?_, fun _ hstart => ?_⟩
  · rw [Cursor.rest_skip_append hd, Cursor.rest_skip_append hrest]
    rfl
  · rw [Cursor.rest_skip_append hrest]
    exact fun hq => h.unquoted (by rw [hrest]; exact List.mem_append_right w hq)
  · have hone := le_leadingColumn c.tabSize 1 (w ++ x :: cs)
    rw [Cursor.column_skip_append hrest (hline hw), Cursor.column_skip_append hd (hline hn),
      Cursor.column_eq, Cursor.column_eq, Cursor.behind_of_atLineStart h.start,
      Cursor.behind_of_atLineStart h.start', List.reverse_nil, List.nil_append, List.nil_append,
      hd, rest_cons hbreak, leadingColumn_spaces hblank, hrest]
    omega
  · -- Without an indentation both are at the start of the line still, and with one neither is.
    by_cases hne : w = []
    · have hzero : n = 0 := by
        have hspaces := leadingColumn_spaces (t := c.tabSize) (k := 1) (n := 0) hblank cs
        simp only [n, hne]
        exact congrArg (· - 1) hspaces
      rw [hzero, hne]
      exact h
    · have hpos : List.replicate n ' ' ≠ [] := by
        have hless := lt_leadingColumn (k := 1) c.tabSize_pos hw hne (x :: cs)
        simp only [ne_eq, List.replicate_eq_nil_iff, n]
        omega
      exact absurd hstart (not_or.2 ⟨Cursor.not_atLineStart_skip hrest (hline hw) hne,
        Cursor.not_atLineStart_skip hd (hline hn) hpos⟩)

/-! ## White space -/

/-- What is left of a line of white space. -/
theorem Starts.skipSpaces_of_inside (h : Starts c d) (hinside : ∀ c' d', Inside c' d' →
    c'.rest.length ≤ c.rest.length →
      Inside (c'.skipWhile Text.isSpace) (d'.skipWhile Text.isSpace))
    (hstarts : ∀ c', Starts c' d → c'.rest.length < c.rest.length →
      Inside (c'.skipWhile Text.isSpace) (d.skipWhile Text.isSpace)) :
    Inside (c.skipWhile Text.isSpace) (d.skipWhile Text.isSpace) := by
  let w := c.rest.takeWhile Text.isBlank
  have hw : ∀ y ∈ w, Text.isBlank y := List.all_eq_true.1 List.all_takeWhile
  have hspace {v : List Char} (hv : ∀ y ∈ v, Text.isLayout y) : ∀ y ∈ v, Text.isSpace y := by
    intro y hy
    have hlayout := hv y hy
    rw [Text.isLayout, Bool.or_eq_true] at hlayout
    exact hlayout.elim Text.isSpace_of_isBlank Text.isSpace_of_isBreak
  have hsplit : c.rest = w ++ c.rest.dropWhile Text.isBlank :=
    List.takeWhile_append_dropWhile.symm
  -- The blanks end the source, they make a blank line, or they are the indentation of a line.
  cases hys : c.rest.dropWhile Text.isBlank with
  | nil =>
    rw [hys, List.append_nil] at hsplit
    have hd : d.rest = [] := by rw [h.rest, hsplit, plain_blanks hw]
    refine .of_end ?_ ?_ h.tabSize
    · rw [Cursor.rest_skipWhile, hsplit]
      exact dropWhile_of_all fun y hy => Text.isSpace_of_isBlank (hw y hy)
    · rw [Cursor.rest_skipWhile, hd, List.dropWhile_nil]
  | cons x cs =>
    rw [hys] at hsplit
    have hblank : Text.isBlank x = false := head_dropWhile x (by rw [hys]; rfl)
    cases hx : Text.isBreak x with
    | true =>
      obtain ⟨v, z, zs, hrest, hv, hz, hnext⟩ := h.skip_blank hsplit hw hx
      have hrest' : c.rest = (v ++ [z]) ++ zs := by rw [hrest]; simp
      have hvz : ∀ y ∈ v ++ [z], Text.isLayout y := fun y hy =>
        (List.mem_append.1 hy).elim (hv y) fun h =>
          Text.isLayout_of_isBreak (List.mem_singleton.1 h ▸ hz)
      have hless : (c.skip (v.length + 1)).rest.length < c.rest.length := by
        rw [Cursor.rest_skip, List.length_drop, hrest, List.length_append, List.length_cons]
        omega
      have hnext' := hstarts _ hnext hless
      have hlength : v.length + 1 = (v ++ [z]).length := by simp
      rwa [hlength, Cursor.skipWhile_skip hrest' (hspace hvz)] at hnext'
    | false =>
      obtain ⟨n, hd, hnext⟩ := h.skip_indent hsplit hw (by rw [Text.isLayout, hblank, hx]; rfl)
      have hnext' := hinside _ _ hnext (by rw [Cursor.rest_skip, List.length_drop]; omega)
      have hskip : d.skip n = d.skip (List.replicate n ' ').length := by rw [List.length_replicate]
      rw [hskip, Cursor.skipWhile_skip hsplit fun y hy => Text.isSpace_of_isBlank (hw y hy),
        Cursor.skipWhile_skip hd fun y hy => ?_] at hnext'
      · exact hnext'
      · rw [List.eq_of_mem_replicate hy]
        decide

/-- White space may be taken on a line. -/
theorem Inside.skipSpaces_of_starts (h : Inside c d) (hinside : ∀ c' d', Inside c' d' →
    c'.rest.length < c.rest.length →
      Inside (c'.skipWhile Text.isSpace) (d'.skipWhile Text.isSpace))
    (hstarts : ∀ c' d', Starts c' d' → c'.rest.length < c.rest.length →
      Inside (c'.skipWhile Text.isSpace) (d'.skipWhile Text.isSpace)) :
    Inside (c.skipWhile Text.isSpace) (d.skipWhile Text.isSpace) := by
  cases hrest : c.rest with
  | nil =>
    have hd := h.nil.1 hrest
    rwa [Cursor.skipWhile_of_head (by simp [hrest]), Cursor.skipWhile_of_head (by simp [hd])]
  | cons x cs =>
    cases hx : Text.isBreak x with
    | true =>
      -- A line break is one character in the other source, and both are at the start of a line
      -- behind it.
      obtain ⟨w, z, zs, hc, hw, hz, hd, hnext⟩ := h.skip_break hrest hx
      have hc' : c.rest = (w ++ [z]) ++ zs := by rw [hc]; simp
      have hwz : ∀ y ∈ w ++ [z], Text.isSpace y := fun y hy =>
        (List.mem_append.1 hy).elim (fun h => Text.isSpace_of_isBreak (hw y h)) fun h =>
          Text.isSpace_of_isBreak (List.mem_singleton.1 h ▸ hz)
      have hless : (c.skip (w.length + 1)).rest.length < c.rest.length := by
        rw [Cursor.rest_skip, List.length_drop, hc, List.length_append, List.length_cons]
        omega
      have hnext' := hstarts _ _ hnext hless
      have hlength : w.length + 1 = (w ++ [z]).length := by simp
      rwa [hlength, Cursor.skipWhile_skip hc' hwz, Cursor.skipWhile_skip_one hd (by decide)]
        at hnext'
    | false =>
      obtain ⟨hd, hnext⟩ := h.skip_one hrest hx
      cases hsp : Text.isSpace x with
      | true =>
        have hnext' := hinside _ _ hnext (by rw [Cursor.rest_skip_one hrest, hrest]; simp)
        rwa [Cursor.skipWhile_skip_one hrest hsp, Cursor.skipWhile_skip_one hd hsp] at hnext'
      | false =>
        rwa [Cursor.skipWhile_of_head (by simp [hrest, hsp]),
          Cursor.skipWhile_of_head (by simp [hd, hsp])]

/-- White space may be taken on a line and before one. -/
theorem skipSpaces (n : Nat) : ∀ c d, c.rest.length = n →
    (Inside c d → Inside (c.skipWhile Text.isSpace) (d.skipWhile Text.isSpace)) ∧
      (Starts c d → Inside (c.skipWhile Text.isSpace) (d.skipWhile Text.isSpace)) := by
  induction n using Nat.strongRecOn with
  | ind n ih =>
    have hinside : ∀ c d, c.rest.length ≤ n → Inside c d →
        Inside (c.skipWhile Text.isSpace) (d.skipWhile Text.isSpace) := fun c d hn h =>
      h.skipSpaces_of_starts (fun c' d' h' hless => (ih _ (by omega) c' d' rfl).1 h')
        fun c' d' h' hless => (ih _ (by omega) c' d' rfl).2 h'
    rintro c d rfl
    exact ⟨hinside c d (Nat.le_refl _), fun h => h.skipSpaces_of_inside
      (fun c' d' h' hle => hinside c' d' hle h') fun c' h' hless => (ih _ hless c' d rfl).2 h'⟩

/-- Behind white space, both are within a line again. -/
theorem Inside.skipSpaces (h : Inside c d) :
    Inside (c.skipWhile Text.isSpace) (d.skipWhile Text.isSpace) :=
  (Layout.skipSpaces _ c d rfl).1 h

/-! ## Ends of lines -/

/-- The next line is not blank. -/
def LineAhead (c : Cursor) : Prop :=
  ∃ w x xs, c.rest = w ++ x :: xs ∧ (∀ y ∈ w, Text.isBlank y) ∧ Text.isLayout x = false

/-- Both sources end, or in both a line starts that is not blank. -/
def Next (c d : Cursor) : Prop :=
  (c.rest = [] ∧ d.rest = [] ∧ d.tabSize = c.tabSize) ∨ Starts c d ∧ LineAhead c

/-- Where a line is ahead, the source has not ended. -/
theorem LineAhead.not_atEnd (h : LineAhead c) : ¬c.atEnd := by
  obtain ⟨w, x, xs, hrest, -⟩ := h
  rw [Cursor.atEnd, hrest]
  simp

/-- Being next to each other does not depend on the references. -/
theorem Next.withReference (h : Next c d) (r r' : Reference) :
    Next (c.withReference r) (d.withReference r') :=
  h.imp_right fun h => ⟨h.1.withReference r r', h.2⟩

/-- Blank lines are only in the first source. -/
theorem Starts.skip_blankLength (h : Starts c d) :
    Next (c.skip (blankLength c.rest)) (d.skip (blankLength d.rest)) := by
  induction hn : c.rest.length using Nat.strongRecOn generalizing c with
  | ind n ih =>
    subst hn
    let w := c.rest.takeWhile Text.isBlank
    have hw : ∀ y ∈ w, Text.isBlank y := List.all_eq_true.1 List.all_takeWhile
    have hsplit : c.rest = w ++ c.rest.dropWhile Text.isBlank :=
      List.takeWhile_append_dropWhile.symm
    cases hys : c.rest.dropWhile Text.isBlank with
    | nil =>
      rw [hys, List.append_nil] at hsplit
      have hd : d.rest = [] := by rw [h.rest, hsplit, plain_blanks hw]
      have hall : c.rest.all Text.isLayout := by
        rw [hsplit]
        exact List.all_eq_true.2 fun y hy => Text.isLayout_of_isBlank (hw y hy)
      refine .inl ⟨?_, ?_, h.tabSize⟩
      · rw [Cursor.rest_skip, blankLength, if_pos hall, List.drop_length]
      · rw [Cursor.rest_skip, hd, List.drop_nil]
    | cons x cs =>
      rw [hys] at hsplit
      have hblank : Text.isBlank x = false := head_dropWhile x (by rw [hys]; rfl)
      cases hx : Text.isBreak x with
      | true =>
        -- The other source has no blank line here, so only the first one goes on.
        obtain ⟨v, z, zs, hrest, hv, hz, hnext⟩ := h.skip_blank hsplit hw hx
        have hzs : (c.skip (v.length + 1)).rest = zs := by
          rw [Cursor.rest_skip, hrest, List.drop_append]
          simp
        have hnext' := ih _ (by rw [hzs, hrest]; simp; omega) hnext rfl
        rwa [hzs, Cursor.skip_skip, ← blankLength_append hv hz zs, ← hrest] at hnext'
      | false =>
        have hlayout : Text.isLayout x = false := by rw [Text.isLayout, hblank, hx]; rfl
        obtain ⟨n, hd, -⟩ := h.skip_indent hsplit hw hlayout
        have hn : ∀ y ∈ List.replicate n ' ', Text.isBlank y := fun y hy => by
          rw [List.eq_of_mem_replicate hy]
          rfl
        rw [hd, rest_cons hx, blankLength_of_line hn hlayout, hsplit,
          blankLength_of_line hw hlayout, Cursor.skip_zero, Cursor.skip_zero]
        exact .inr ⟨h, w, x, cs, hsplit, hw, hlayout⟩

/-- A line ends in the one source if it does in the other one. -/
theorem Inside.ends_iff (h : Inside c d) : EndsLine c ↔ EndsLine d := by
  have hblank : Blank c ↔ Blank d := by
    rw [Blank, Blank, line_skipWhile fun _ => Text.not_isBreak_of_isBlank,
      line_skipWhile fun _ => Text.not_isBreak_of_isBlank, h.line]
  by_cases hrest : c.rest = []
  · have hd := h.nil.1 hrest
    exact iff_of_true (.of_end hrest) (.of_end hd)
  · rw [EndsLine, EndsLine, hblank]
    refine or_congr_left ⟨fun hc => (h.starts hrest (.inl hc)).start', fun hd => ?_⟩
    exact (h.starts hrest (.inr hd)).start

/-- A part of the line. -/
theorem Inside.skip_append (h : Inside c d) (hrest : c.rest = w ++ cs)
    (hw : ∀ y ∈ w, Text.isBreak y = false) :
    d.rest = w ++ Layout.rest c.tabSize cs ∧ Inside (c.skip w.length) (d.skip w.length) := by
  induction w generalizing c d with
  | nil =>
    rw [List.length_nil, Cursor.skip_zero, Cursor.skip_zero, h.rest, hrest]
    exact ⟨rfl, h⟩
  | cons y w ih =>
    obtain ⟨hd, hnext⟩ := h.skip_one hrest (hw y List.mem_cons_self)
    obtain ⟨hd', hlast⟩ := ih hnext (Cursor.rest_skip_one hrest) fun z hz =>
      hw z (List.mem_cons_of_mem y hz)
    rw [Cursor.rest_skip_one hd, Cursor.tabSize_skip] at hd'
    rw [Cursor.skip_skip, Cursor.skip_skip, Nat.add_comm] at hlast
    exact ⟨by rw [hd, hd', List.cons_append], hlast⟩

/-- At the end of both sources, what is next is next to each other. -/
theorem Next.of_end (hc : c.rest = []) (hd : d.rest = []) (htab : d.tabSize = c.tabSize)
    (m n : Nat) : Next (c.skip m) (d.skip n) := by
  refine .inl ⟨?_, ?_, htab⟩
  · rw [Cursor.rest_skip, hc, List.drop_nil]
  · rw [Cursor.rest_skip, hd, List.drop_nil]

/-- Behind a line break the next line starts. -/
theorem Inside.skip_break_blankLength (h : Inside c d) (hline : c.line = []) :
    Next (c.skip (blankLength c.rest)) (d.skip (blankLength d.rest)) := by
  cases hrest : c.rest with
  | nil => exact .of_end hrest (h.nil.1 hrest) h.tabSize _ _
  | cons x xs =>
    have hx : Text.isBreak x := by
      rw [Cursor.line, hrest, List.takeWhile_cons] at hline
      split at hline
      · cases hline
      · simp_all
    obtain ⟨w, z, zs, hc, hw, hz, hd, hnext⟩ := h.skip_break hrest hx
    have hzs : (c.skip (w.length + 1)).rest = zs := by
      rw [Cursor.rest_skip, hc, List.drop_append]
      simp
    have hnext' := hnext.skip_blankLength
    rw [hzs, Cursor.rest_skip_one hd, Cursor.skip_skip, Cursor.skip_skip] at hnext'
    have hone := blankLength_append (w := []) (x := '\n') (List.forall_mem_nil _) (by decide)
      (plain c.tabSize zs)
    rw [List.nil_append, List.length_nil, Nat.zero_add] at hone
    have hlayout : ∀ y ∈ w, Text.isLayout y := fun y hy => Text.isLayout_of_isBreak (hw y hy)
    rwa [← hrest, hc, hd, blankLength_append hlayout hz, hone]

/-- Behind the end of a line the next one starts. -/
theorem Inside.skip_blankLength (h : Inside c d) (hend : EndsLine c) :
    Next (c.skip (blankLength c.rest)) (d.skip (blankLength d.rest)) := by
  by_cases hrest : c.rest = []
  · exact .of_end hrest (h.nil.1 hrest) h.tabSize _ _
  obtain hstart | hblank := hend
  · exact (h.starts hrest (.inl hstart)).skip_blankLength
  let w := c.rest.takeWhile Text.isBlank
  have hw : ∀ y ∈ w, Text.isBlank y := List.all_eq_true.1 List.all_takeWhile
  have hsplit : c.rest = w ++ (c.skip w.length).rest := by
    rw [Cursor.rest_skip]
    exact (List.prefix_iff_eq_append.1 (List.takeWhile_prefix _)).symm
  obtain ⟨hd, hnext⟩ := h.skip_append hsplit fun y hy => Text.not_isBreak_of_isBlank (hw y hy)
  have hbreak {c : Cursor} (hline : c.line = []) : ∀ y ∈ c.rest.head?, Text.isBreak y := by
    obtain ⟨ys, hys, hbreak⟩ := c.rest_eq_line
    rw [hline, List.nil_append] at hys
    rwa [hys]
  have hline : (c.skip w.length).line = [] := hblank
  have hd' : d.rest = w ++ (d.skip w.length).rest := by rw [hnext.rest]; exact hd
  have hlast := hnext.skip_break_blankLength hline
  rw [Cursor.skip_skip, Cursor.skip_skip] at hlast
  rwa [hsplit, hd', blankLength_of_blanks hw (hbreak hline),
    blankLength_of_blanks hw (hbreak (hnext.line ▸ hline))]

/-- Behind white space, places next to each other are within a line. -/
theorem Next.skipSpaces (h : Next c d) :
    Inside (c.skipWhile Text.isSpace) (d.skipWhile Text.isSpace) := by
  obtain ⟨hc, hd, htab⟩ | ⟨h, -⟩ := h
  · refine .of_end ?_ ?_ htab
    · rw [Cursor.rest_skipWhile, hc, List.dropWhile_nil]
    · rw [Cursor.rest_skipWhile, hd, List.dropWhile_nil]
  · exact (Layout.skipSpaces _ c d rfl).2 h

/-- At places next to each other, lines end alike. -/
theorem Next.ends_iff (h : Next c d) : EndsLine c ↔ EndsLine d := by
  obtain ⟨hc, hd, -⟩ | ⟨h, -⟩ := h
  · exact iff_of_true (.of_end hc) (.of_end hd)
  · exact iff_of_true (.inl h.start) (.inl h.start')

/-- Behind blank lines, places are still next to each other. -/
theorem Next.skip_blankLength (h : Next c d) :
    Next (c.skip (blankLength c.rest)) (d.skip (blankLength d.rest)) := by
  obtain ⟨hc, hd, htab⟩ | ⟨h, -⟩ := h
  · exact .of_end hc hd htab _ _
  · exact h.skip_blankLength

/-- The indentation of the next line. -/
theorem Next.skip_indent (h : Next c d) (hmore : ¬c.atEnd) :
    ¬d.atEnd ∧ Inside (c.skipWhile Text.isBlank) (d.skipWhile Text.isBlank) ∧
      (c.skipWhile Text.isBlank).rest ≠ [] := by
  obtain ⟨hc, -⟩ | ⟨h, w, x, xs, hrest, hw, hx⟩ := h
  · exact absurd (by rw [Cursor.atEnd, hc]; rfl) hmore
  obtain ⟨n, hd, hnext⟩ := h.skip_indent hrest hw hx
  obtain ⟨hblank, hbreak⟩ := Bool.or_eq_false_iff.1 hx
  rw [rest_cons hbreak] at hd
  have hskip {c : Cursor} {w xs : List Char} (hrest : c.rest = w ++ x :: xs)
      (hw : ∀ y ∈ w, Text.isBlank y) : c.skipWhile Text.isBlank = c.skip w.length := by
    rw [Cursor.skipWhile, hrest, List.takeWhile_append_of_pos hw,
      List.takeWhile_cons_of_neg (by simp [hblank]), List.append_nil]
  have hspaces : ∀ y ∈ List.replicate n ' ', Text.isBlank y := fun y hy => by
    rw [List.eq_of_mem_replicate hy]
    rfl
  rw [hskip hrest hw, hskip hd hspaces, List.length_replicate]
  refine ⟨?_, hnext, ?_⟩
  · rw [Cursor.atEnd, hd]
    simp
  · rw [Cursor.rest_skip_append hrest]
    exact List.cons_ne_nil x xs

end Layout

open Layout (Inside Next)

/-- Places of a source without quotes and of the one with plain layout, with references of a
    column. -/
def layout (m : Nat) (s : List Region) (c d : Cursor) : Prop :=
  Inside c d ∧ (c.reference.column = m ∧ d.reference.column = m) ∧
    ∀ r ∈ s, r = .braces ∨ r = .parens

/-- Such places behind the end of a line. -/
def layoutLine (m : Nat) (c d : Cursor) : Prop :=
  Next c d ∧ c.reference.column = m ∧ d.reference.column = m

/-- Braces and parentheses are not in quotes. -/
theorem not_quoted_of_plain {s : List Region} (h : ∀ r ∈ s, r = .braces ∨ r = .parens) :
    ¬Region.Quoted s := by
  cases s with
  | nil => simp [Region.Quoted]
  | cons r s => rcases h r List.mem_cons_self with rfl | rfl <;> simp [Region.Quoted]

/-- Without a quotation mark, nothing but braces and parentheses is opened. -/
theorem after_of_plain {s : List Region} {x : Char} (h : ∀ r ∈ s, r = .braces ∨ r = .parens)
    (hx : x ≠ '"') : ∀ r ∈ Region.after s x, r = .braces ∨ r = .parens := by
  have hcons {s : List Region} {r : Region} (h : ∀ r ∈ s, r = .braces ∨ r = .parens)
      (hr : r = .braces ∨ r = .parens) : ∀ q ∈ r :: s, q = .braces ∨ q = .parens :=
    List.forall_mem_cons.2 ⟨hr, h⟩
  have htail {s : List Region} {r : Region} (h : ∀ q ∈ r :: s, q = .braces ∨ q = .parens) :
      ∀ q ∈ s, q = .braces ∨ q = .parens := (List.forall_mem_cons.1 h).2
  match s with
  | [] =>
    rw [Region.after]
    split
    · exact hcons (List.forall_mem_nil _) (.inl rfl)
    · exact List.forall_mem_nil _
  | .quotes :: s | .escape :: s => exact absurd h (by simp)
  | .braces :: s | .parens :: s =>
    simp only [Region.after, if_neg hx]
    split
    · exact hcons h (.inr rfl)
    · split
      · exact htail h
      · exact h

/-- A character of the line takes both sources further. -/
theorem layout_step {m : Nat} {s : List Region} {c d : Cursor} {x : Char} {xs : List Char}
    (h : layout m s c d) (hline : c.line = x :: xs) :
    layout m (Region.after s x) (c.skip 1) (d.skip 1) := by
  obtain ⟨ys, hrest⟩ := Cursor.rest_eq_cons hline
  have hx : Text.isBreak x = false :=
    Cursor.not_isBreak_of_line (c := c) (by rw [hline]; exact List.mem_cons_self)
  refine ⟨(h.1.skip_one hrest hx).2, h.2.1, after_of_plain h.2.2 ?_⟩
  rintro rfl
  exact h.1.unquoted (by rw [hrest]; exact List.mem_cons_self)

/-- A source and the one of plain layout are read in step. -/
theorem aligned_layout (m : Nat) : Aligned (layout m) where
  line h := h.1.line
  nil h := h.1.nil
  step h hline _ := layout_step h hline
  spaces _ h := ⟨h.1.skipSpaces, h.2⟩
  column h := h.1.column
  reference h := h.2.1.1.trans h.2.1.2.symm
  quoted hs h _ := absurd hs (not_quoted_of_plain h.2.2)

/-- The ends of lines agree. -/
theorem agree_lineEnd_layout {m : Nat} {J : Facts → Facts → Prop} :
    Agree J (Behind layout layoutLine m) (lineEnd : Rule Unit) lineEnd (layoutLine m) := by
  refine agree_lineEnd (fun c d h => ?_) fun c d h hend => ?_
  · exact h.elim (·.1.ends_iff) (·.1.ends_iff)
  · exact h.elim (fun h => ⟨h.1.skip_blankLength hend, h.2.1⟩) fun h => ⟨h.1.skip_blankLength, h.2⟩

/-- With plain layout all is read as it is. -/
theorem levelled_layout : Levelled layout layoutLine where
  aligned := aligned_layout
  reference h := h.2.1
  brace := layout_step
  bare := ⟨fun h => ⟨h.1, h.2.1, by simp⟩, fun h => ⟨h.1, h.2.1, nofun⟩⟩
  withReference h hr hr' := ⟨h.1.withReference _ _, ⟨hr, hr'⟩, h.2.2⟩
  withReference' h hr hr' := ⟨h.1.withReference _ _, hr, hr'⟩
  gap h := h.elim (fun h => ⟨h.1.skipSpaces, h.2⟩) fun h => ⟨h.1.skipSpaces, h.2, nofun⟩
  lineEnd := @agree_lineEnd_layout
  atEnd {m c d} h := by
    by_cases hend : c.atEnd
    · obtain ⟨-, hd, -⟩ | ⟨-, hmore⟩ := h.1
      · rw [hend, Cursor.atEnd, hd]
        rfl
      · exact absurd hend hmore.not_atEnd
    · rw [Bool.eq_false_iff.2 hend, Bool.eq_false_iff.2 (h.1.skip_indent hend).1]
  next h hend := ⟨⟨(h.1.skip_indent hend).2.1, h.2, nofun⟩, (h.1.skip_indent hend).2.2⟩

end Dialogue
