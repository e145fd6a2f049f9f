import Dialogue.Proofs.Parser.Blank

/-!
# Layout

The *layout* of a source is what does not matter of its white space: how line breaks are spelled,
of which blanks the indentation of a line is made, and where blank lines are. A source of which
the layout is *plain* (`Layout.plain`) has line feeds, indentation of spaces up to the same columns,
and no blank lines.

What is ahead in a plain source can be told from what is ahead in the other one: from the start of
a line it is the plain text of that, and from a place on a line it is the rest of the line and
the plain text of the other lines (`Layout.rest`).
-/

namespace Dialogue

namespace Layout

/-- A line, and whether a line break ends it. -/
structure Line where
  /-- The characters of the line. -/
  text : List Char
  /-- Is there a line break behind it? -/
  ended : Bool

/-- The lines of a text. -/
def lines : List Char → List Line
  | [] => []
  | '\r' :: '\n' :: cs => ⟨[], true⟩ :: lines cs
  | x :: cs =>
    if Text.isBreak x then ⟨[], true⟩ :: lines cs
    else match lines cs with
      | [] => [⟨[x], false⟩]
      | l :: ls => ⟨x :: l.text, l.ended⟩ :: ls

/-- The line break of a line. -/
def Line.ending (l : Line) : List Char := if l.ended then ['\n'] else []

/-- A line with plain layout. A blank line is nothing. -/
def Line.plain (tabSize : Nat) (l : Line) : List Char :=
  if l.text.all Text.isBlank then []
  else
    List.replicate (leadingColumn tabSize 1 l.text - 1) ' ' ++ l.text.dropWhile Text.isBlank ++
      l.ending

/-- A text with plain layout. -/
def plain (tabSize : Nat) (cs : List Char) : List Char := (lines cs).flatMap (·.plain tabSize)

/-- A text that starts on a line, with plain layout. -/
def rest (tabSize : Nat) (cs : List Char) : List Char :=
  match lines cs with
  | [] => []
  | l :: ls => l.text ++ l.ending ++ ls.flatMap (·.plain tabSize)

variable {t : Nat} {x : Char} {w cs zs : List Char} {l : Line} {ls : List Line}

/-! ## Lines -/

/-- A character that is no line break is the first one of its line. -/
theorem lines_cons (hx : Text.isBreak x = false) : lines (x :: cs) =
    match lines cs with
    | [] => [⟨[x], false⟩]
    | l :: ls => ⟨x :: l.text, l.ended⟩ :: ls := by
  rw [lines.eq_def]
  split
  · rename_i h
    cases h
  · rename_i h
    cases h
    cases hx
  · rename_i h
    cases h
    rw [hx]
    rfl

/-- A line break may be two characters. -/
theorem lines_break (hx : Text.isBreak x) (cs : List Char) : ∃ w z zs, x :: cs = w ++ z :: zs ∧
    (∀ y ∈ w, Text.isBreak y) ∧ Text.isBreak z ∧ lines (x :: cs) = ⟨[], true⟩ :: lines zs := by
  rw [lines.eq_def]
  split
  · rename_i h
    cases h
  · rename_i zs h
    cases h
    refine ⟨['\r'], '\n', zs, rfl, fun y hy => ?_, rfl, rfl⟩
    rw [List.mem_singleton.1 hy]
    rfl
  · rename_i h
    cases h
    exact ⟨[], x, cs, rfl, nofun, hx, if_pos hx⟩

/-- Text without a line break stands at the start of its line. -/
theorem lines_append (hw : ∀ y ∈ w, Text.isBreak y = false) (h : lines cs = l :: ls) :
    lines (w ++ cs) = ⟨w ++ l.text, l.ended⟩ :: ls := by
  induction w with
  | nil => exact h
  | cons y w ih =>
    rw [List.cons_append, lines_cons (hw y List.mem_cons_self),
      ih fun z hz => hw z (List.mem_cons_of_mem y hz)]
    rfl

/-- A text without line breaks is one line, if it is one. -/
theorem lines_of_line (hw : ∀ y ∈ w, Text.isBreak y = false) (hne : w ≠ []) :
    lines w = [⟨w, false⟩] := by
  induction w with
  | nil => exact absurd rfl hne
  | cons y w ih =>
    rw [lines_cons (hw y List.mem_cons_self)]
    cases w with
    | nil => rw [lines]
    | cons z w => rw [ih (fun z hz => hw z (List.mem_cons_of_mem y hz)) (List.cons_ne_nil z w)]

/-- A line break stands alone unless a line feed is behind a carriage return. -/
theorem lines_break_alone (hx : Text.isBreak x) (h : ∀ ys, x = '\r' → cs ≠ '\n' :: ys) :
    lines (x :: cs) = ⟨[], true⟩ :: lines cs := by
  rw [lines.eq_def]
  split
  · rename_i heq
    cases heq
  · rename_i heq
    cases heq
    exact absurd rfl (h _ rfl)
  · rename_i heq
    cases heq
    exact if_pos hx

/-- Only the empty source has no lines. -/
theorem lines_eq_nil : lines cs = [] ↔ cs = [] := by
  refine ⟨fun h => ?_, fun h => by rw [h, lines]⟩
  rw [lines.eq_def] at h
  split at h
  · rfl
  · cases h
  · split at h
    · cases h
    · split at h <;> cases h

/-- Behind a line break come the lines of the rest, unless a line feed belongs to a carriage return
    in front of it. -/
theorem lines_append_of_ended (h : ∀ x ∈ cs.getLast?, Text.isBreak x) (zs : List Char) :
    lines (cs ++ zs) = lines cs ++ lines zs ∨
      ∃ ys, zs = '\n' :: ys ∧ lines (cs ++ zs) = lines cs ++ lines ys := by
  have hcons {l : Line} {cs' : List Char} {ls : List Line} :
      lines cs' = ls ++ lines zs ∨ (∃ ys, zs = '\n' :: ys ∧ lines cs' = ls ++ lines ys) →
      l :: lines cs' = l :: ls ++ lines zs ∨
        ∃ ys, zs = '\n' :: ys ∧ l :: lines cs' = l :: ls ++ lines ys :=
    fun h => h.imp (congrArg _) fun ⟨ys, hys, heq⟩ => ⟨ys, hys, congrArg _ heq⟩
  have htail {x : Char} {cs : List Char} (h : ∀ y ∈ (x :: cs).getLast?, Text.isBreak y) :
      ∀ y ∈ cs.getLast?, Text.isBreak y := fun y hy => h y <| by
    rw [List.getLast?_cons, Option.mem_def.1 hy]
    rfl
  induction cs using lines.induct with
  | case1 => exact .inl (by rw [lines]; rfl)
  | case2 cs ih =>
    simp only [List.cons_append, lines]
    exact hcons (ih (htail (htail h)))
  | case3 x cs hcr hx ih =>
    rw [lines_break_alone hx fun ys hr hcs => hcr ys hr hcs, List.cons_append]
    -- Only a carriage return that ends the first text can take a line feed of the second one along.
    by_cases hmerged : x = '\r' ∧ ∃ ys, cs ++ zs = '\n' :: ys
    · obtain ⟨rfl, ys, hys⟩ := hmerged
      cases cs with
      | nil =>
        refine .inr ⟨ys, hys, ?_⟩
        rw [hys, lines, lines]
        rfl
      | cons y cs =>
        cases hys
        exact (hcr cs rfl rfl).elim
    · rw [lines_break_alone hx fun ys hr hcs => hmerged ⟨hr, ys, hcs⟩]
      exact hcons (ih (htail h))
  | case4 x cs _ hx hnil _ =>
    rw [lines_eq_nil] at hnil
    subst hnil
    exact absurd (h x rfl) hx
  | case5 x cs _ hx l ls hlines ih =>
    rw [Bool.not_eq_true] at hx
    rw [List.cons_append, lines_cons hx, lines_cons hx, hlines]
    rcases ih (htail h) with heq | ⟨ys, hys, heq⟩
    · rw [heq, hlines]
      exact .inl rfl
    · rw [heq, hlines]
      exact .inr ⟨ys, hys, rfl⟩

/-- A line has characters of the text, and no line break. -/
theorem mem_of_mem_lines (hl : l ∈ lines cs) (hx : x ∈ l.text) :
    x ∈ cs ∧ Text.isBreak x = false := by
  induction cs using lines.induct generalizing l with
  | case1 =>
    rw [lines] at hl
    cases hl
  | case2 cs ih =>
    rw [lines] at hl
    rcases List.mem_cons.1 hl with rfl | hl
    · cases hx
    · exact (ih hl hx).imp_left fun h => List.mem_cons_of_mem _ (List.mem_cons_of_mem _ h)
  | case3 y cs hcr hy ih =>
    rw [lines_break_alone hy fun ys hr hcs => hcr ys hr hcs] at hl
    rcases List.mem_cons.1 hl with rfl | hl
    · cases hx
    · exact (ih hl hx).imp_left (List.mem_cons_of_mem _)
  | case4 y cs _ hy hnil _ =>
    rw [Bool.not_eq_true] at hy
    rw [lines_cons hy, hnil] at hl
    obtain rfl := List.mem_singleton.1 hl
    obtain rfl := List.mem_singleton.1 hx
    exact ⟨List.mem_cons_self, hy⟩
  | case5 y cs _ hy l' ls hlines ih =>
    rw [Bool.not_eq_true] at hy
    rw [lines_cons hy, hlines] at hl
    rw [hlines] at ih
    rcases List.mem_cons.1 hl with rfl | hl
    · rcases List.mem_cons.1 hx with rfl | hx
      · exact ⟨List.mem_cons_self, hy⟩
      · exact (ih List.mem_cons_self hx).imp_left (List.mem_cons_of_mem _)
    · exact (ih (List.mem_cons_of_mem _ hl) hx).imp_left (List.mem_cons_of_mem _)

/-- The line that a place is on, up to the place, and what is next there. -/
theorem exists_line (u : List Char) (hx : Text.isBreak x = false) (xs : List Char) :
    ∃ l ∈ lines (u ++ x :: xs), ∃ v,
      l.text = (u.reverse.takeWhile (!Text.isBreak ·)).reverse ++ x :: v := by
  have hsplit := List.takeWhile_append_dropWhile (p := (!Text.isBreak ·)) (l := u)
  have hw : ∀ y ∈ u.takeWhile (!Text.isBreak ·), Text.isBreak y = false := fun y hy => by
    simpa using List.all_eq_true.1 List.all_takeWhile y hy
  cases hrest : u.dropWhile (!Text.isBreak ·) with
  | nil =>
    rw [hrest, List.append_nil] at hsplit
    rw [hsplit] at hw
    have hall : u.reverse.takeWhile (!Text.isBreak ·) = u.reverse :=
      Parser.takeWhile_of_all fun y hy => by simp [hw y (List.mem_reverse.1 hy)]
    obtain ⟨l, ls, hlines⟩ : ∃ (l : Line) (ls : List Line),
        lines (x :: xs) = ⟨x :: l.text, l.ended⟩ :: ls := by
      rw [lines_cons hx]
      cases lines xs with
      | nil => exact ⟨⟨[], false⟩, [], rfl⟩
      | cons l ls => exact ⟨l, ls, rfl⟩
    rw [lines_append hw hlines, hall, List.reverse_reverse]
    exact ⟨_, List.mem_cons_self, l.text, rfl⟩
  | cons b u' =>
    have hb : Text.isBreak b := by
      have h : (!Text.isBreak b) = false := Parser.head_dropWhile b (by rw [hrest]; rfl)
      simpa using h
    obtain ⟨v, z, zs, hbreak, hv, hz, hlines⟩ := lines_break hb (u' ++ x :: xs)
    -- Behind the first line break there is a shorter text up to the place.
    obtain ⟨u'', hu', rfl⟩ : ∃ u'', b :: u' = (v ++ [z]) ++ u'' ∧ zs = u'' ++ x :: xs := by
      have hbreak : (b :: u') ++ x :: xs = (v ++ [z]) ++ zs := hbreak.trans (List.append_cons ..)
      rcases List.append_eq_append_iff.1 hbreak with ⟨t, ht, hxs⟩ | ⟨t, ht, hzs⟩
      · cases t with
        | nil => exact ⟨[], by rw [ht, List.append_nil, List.append_nil], hxs.symm⟩
        | cons y t =>
          cases hxs
          have hmem : x ∈ v ++ [z] := ht ▸ List.mem_append_right _ List.mem_cons_self
          rcases List.mem_append.1 hmem with hmem | hmem
          · rw [hv x hmem] at hx
            cases hx
          · rw [List.mem_singleton.1 hmem, hz] at hx
            cases hx
      · exact ⟨t, ht, hzs⟩
    have hlast : (u.reverse.takeWhile (!Text.isBreak ·)) =
        u''.reverse.takeWhile (!Text.isBreak ·) := by
      rw [← hsplit, hrest, hu']
      simp only [List.reverse_append, List.reverse_cons, List.reverse_nil, List.nil_append,
        List.append_assoc]
      exact Parser.takeWhile_append_of_head (by rintro _ ⟨⟩; simp [hz])
    have hlength : u''.length < u.length := by
      have h := congrArg List.length hsplit
      rw [hrest, hu'] at h
      simp only [List.length_append, List.length_singleton] at h
      omega
    obtain ⟨l, hl, t, ht⟩ := exists_line u'' hx xs
    refine ⟨l, ?_, t, by rw [ht, hlast]⟩
    rw [← hsplit, hrest, List.append_assoc, List.cons_append, lines_append hw hlines]
    exact List.mem_cons_of_mem _ hl
termination_by u.length

/-! ## Plain layout -/

/-- The plain layout of nothing is nothing. -/
@[simp] theorem plain_nil : plain t [] = [] := by rw [plain, lines]; rfl

/-- Nothing ahead is nothing ahead in plain layout. -/
@[simp] theorem rest_nil : rest t [] = [] := by rw [rest, lines]

/-- A character of the line is left alone. -/
theorem rest_cons (hx : Text.isBreak x = false) : rest t (x :: cs) = x :: rest t cs := by
  rw [rest, rest, lines_cons hx]
  cases lines cs <;> rfl

/-- All line breaks in a row are one line feed in plain layout. -/
theorem rest_break (hx : Text.isBreak x) (cs : List Char) : ∃ w z zs, x :: cs = w ++ z :: zs ∧
    (∀ y ∈ w, Text.isBreak y) ∧ Text.isBreak z ∧ rest t (x :: cs) = '\n' :: plain t zs := by
  obtain ⟨w, z, zs, hcs, hw, hz, hlines⟩ := lines_break hx cs
  refine ⟨w, z, zs, hcs, hw, hz, ?_⟩
  rw [rest, hlines]
  rfl

/-- A blank line is nothing. -/
theorem plain_blank_line (hw : ∀ y ∈ w, Text.isBlank y) (hx : Text.isBreak x) (cs : List Char) :
    ∃ v z zs, x :: cs = v ++ z :: zs ∧ (∀ y ∈ v, Text.isBreak y) ∧ Text.isBreak z ∧
      plain t (w ++ x :: cs) = plain t zs := by
  obtain ⟨v, z, zs, hcs, hv, hz, hlines⟩ := lines_break hx cs
  refine ⟨v, z, zs, hcs, hv, hz, ?_⟩
  rw [plain, lines_append (fun y hy => Text.not_isBreak_of_isBlank (hw y hy)) hlines,
    List.flatMap_cons, Line.plain, List.append_nil, if_pos (List.all_eq_true.2 hw)]
  rfl

/-- A line of blanks at the end is nothing in plain layout. -/
theorem plain_blanks (hw : ∀ y ∈ w, Text.isBlank y) : plain t w = [] := by
  by_cases hne : w = []
  · rw [hne, plain_nil]
  · rw [plain, lines_of_line (fun y hy => Text.not_isBreak_of_isBlank (hw y hy)) hne,
      List.flatMap_cons, Line.plain, if_pos (List.all_eq_true.2 hw)]
    rfl

/-- The column of a line is found in its indentation. -/
theorem leadingColumn_of_head {zs : List Char} (h : ∀ x ∈ zs.head?, Text.isBlank x = false)
    (k : Nat) : leadingColumn t k (w ++ zs) = leadingColumn t k w := by
  induction w generalizing k with
  | nil =>
    cases zs with
    | nil => rfl
    | cons x zs =>
      have hx := h x rfl
      simp only [Text.isBlank, Bool.or_eq_false_iff, decide_eq_false_iff_not] at hx
      simp [leadingColumn, hx]
  | cons y w ih => simp only [List.cons_append, leadingColumn, ih]

/-- The column of the first character does not depend on what is behind it. -/
theorem leadingColumn_append (hx : Text.isBlank x = false) (cs zs : List Char) (k : Nat) :
    leadingColumn t k (w ++ x :: cs) = leadingColumn t k (w ++ x :: zs) := by
  have hhead (cs : List Char) : ∀ y ∈ (x :: cs).head?, Text.isBlank y = false :=
    fun y hy => Option.mem_some.1 hy ▸ hx
  rw [leadingColumn_of_head (hhead cs), leadingColumn_of_head (hhead zs)]

/-- The column of an indentation is not before the one where counting starts. -/
theorem le_leadingColumn (t k : Nat) (cs : List Char) : k ≤ leadingColumn t k cs := by
  induction cs generalizing k with
  | nil => exact Nat.le_refl k
  | cons x cs ih =>
    rw [leadingColumn]
    split
    · exact Nat.le_trans (Nat.le_succ k) (ih _)
    · split
      · exact Nat.le_trans (Nat.le_add_right k _) (ih _)
      · exact Nat.le_refl k

/-- A line that is not blank gets other indentation. -/
theorem plain_line (hw : ∀ y ∈ w, Text.isBlank y) (hx : Text.isLayout x = false) :
    plain t (w ++ x :: cs) =
      List.replicate (leadingColumn t 1 (w ++ x :: cs) - 1) ' ' ++ rest t (x :: cs) := by
  obtain ⟨hblank, hbreak⟩ := Bool.or_eq_false_iff.1 hx
  obtain ⟨l, ls, hlines⟩ : ∃ (l : Line) (ls : List Line),
      lines (x :: cs) = ⟨x :: l.text, l.ended⟩ :: ls := by
    rw [lines_cons hbreak]
    cases lines cs with
    | nil => exact ⟨⟨[], false⟩, [], rfl⟩
    | cons l ls => exact ⟨l, ls, rfl⟩
  have hnot : (w ++ x :: l.text).all Text.isBlank = false := by simp [hblank]
  rw [plain, lines_append (fun y hy => Text.not_isBreak_of_isBlank (hw y hy)) hlines,
    List.flatMap_cons, Line.plain, hnot, if_neg Bool.false_ne_true, rest, hlines,
    List.dropWhile_append_of_pos hw, List.dropWhile_cons_of_neg (by simp [hblank]),
    leadingColumn_append hblank l.text cs]
  simp only [List.append_assoc]
  rfl

/-- A text that starts behind a line break gets its layout by itself. -/
theorem plain_append (h : ∀ x ∈ cs.getLast?, Text.isBreak x) (zs : List Char) :
    plain t (cs ++ zs) = plain t cs ++ plain t zs := by
  rcases lines_append_of_ended h zs with heq | ⟨ys, rfl, heq⟩
  · rw [plain, heq, List.flatMap_append, plain, plain]
  · have hblank : plain t ('\n' :: ys) = plain t ys := by
      rw [plain, lines_break_alone rfl fun _ hr => absurd hr (by decide)]
      rfl
    rw [hblank, plain, heq, List.flatMap_append, plain, plain]

/-- Blank lines are nothing. -/
theorem plain_of_layout (hw : ∀ x ∈ w, Text.isLayout x) : plain t w = [] := by
  refine List.flatMap_eq_nil_iff.2 fun l hl => if_pos (List.all_eq_true.2 fun x hx => ?_)
  obtain ⟨hmem, hbreak⟩ := mem_of_mem_lines hl hx
  simpa only [Text.isLayout, hbreak, Bool.or_false] using hw x hmem

/-- Blank lines are nothing in plain layout wherever a line may start. -/
theorem plain_insert (hcs : ∀ x ∈ cs.getLast?, Text.isBreak x) (hw : ∀ x ∈ w, Text.isLayout x)
    (hlast : ∀ x ∈ w.getLast?, Text.isBreak x) (zs : List Char) :
    plain t (cs ++ w ++ zs) = plain t (cs ++ zs) := by
  rw [List.append_assoc, plain_append hcs, plain_append hlast, plain_of_layout hw, List.nil_append,
    plain_append hcs]

end Layout

/-- Columns are counted from one. -/
theorem Cursor.column_pos (c : Cursor) : 0 < c.column := by
  rw [Cursor.column_eq]
  exact Layout.le_leadingColumn _ 1 _

end Dialogue
