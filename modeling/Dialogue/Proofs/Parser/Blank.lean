import Dialogue.Proofs.Parser.Line

/-!
# Blank lines

How many characters of blank lines are next can be told from the characters ahead (`blankLength`):
it is the run of blanks and line breaks up to its last line break, or to the end of the source if
nothing else is ahead. The parsers of blank lines and of the end of a line take exactly these
(`blankLines_eq`, `lineEnd_spec`), so the spelling of a line break does not matter for them.
-/

namespace Dialogue

namespace Text

/-- A blank or a line break. -/
def isLayout (x : Char) : Bool := isBlank x || isBreak x

/-- Blanks are layout. -/
theorem isLayout_of_isBlank {x : Char} (h : isBlank x) : isLayout x := by simp [isLayout, h]

/-- Line breaks are layout. -/
theorem isLayout_of_isBreak {x : Char} (h : isBreak x) : isLayout x := by simp [isLayout, h]

/-- Line breaks are no blanks. -/
theorem not_isBlank_of_isBreak {x : Char} (h : isBreak x) : isBlank x = false :=
  Bool.eq_false_iff.2 fun hb => by simp [not_isBreak_of_isBlank hb] at h

end Text

namespace Parser

variable {σ : Type} {x : Char} {cs w zs : List Char}

/-- The number of characters up to the last line break of the blank lines that a text starts
    with. -/
def breaksLength (cs : List Char) : Nat :=
  ((cs.takeWhile Text.isLayout).reverse.dropWhile Text.isBlank).length

/-- The number of characters of the blank lines that a text starts with. -/
def blankLength (cs : List Char) : Nat :=
  if cs.all Text.isLayout then cs.length else breaksLength cs

/-! ## Texts -/

/-- Behind its last line break a text starts with the indentation of its first line. -/
theorem breaks_split (cs : List Char) : ∃ a b, cs = a ++ (b ++ cs.dropWhile Text.isLayout) ∧
    a.length = breaksLength cs ∧ (∀ x ∈ a, Text.isLayout x) ∧ ∀ x ∈ b, Text.isBlank x := by
  let run := cs.takeWhile Text.isLayout
  refine ⟨(run.reverse.dropWhile Text.isBlank).reverse,
    (run.reverse.takeWhile Text.isBlank).reverse, ?_, by simp [breaksLength, run], ?_, ?_⟩
  · rw [← List.append_assoc, ← List.reverse_append, List.takeWhile_append_dropWhile,
      List.reverse_reverse, List.takeWhile_append_dropWhile]
  · intro x hx
    have hrun : x ∈ run := by
      have := (List.dropWhile_suffix _).mem (List.mem_reverse.1 hx)
      exact List.mem_reverse.1 this
    exact List.all_eq_true.1 List.all_takeWhile x hrun
  · intro x hx
    exact List.all_eq_true.1 List.all_takeWhile x (List.mem_reverse.1 hx)

/-- A run over all of it leaves nothing. -/
theorem dropWhile_of_all {p : Char → Bool} (h : ∀ x ∈ cs, p x) : cs.dropWhile p = [] := by
  have h : (cs ++ []).dropWhile p = [].dropWhile p := List.dropWhile_append_of_pos h
  rwa [List.append_nil] at h

/-- A run over all of it takes everything. -/
theorem takeWhile_of_all {p : Char → Bool} (h : ∀ x ∈ cs, p x) : cs.takeWhile p = cs := by
  have h : (cs ++ []).takeWhile p = cs ++ [].takeWhile p := List.takeWhile_append_of_pos h
  rwa [List.append_nil, List.takeWhile_nil, List.append_nil] at h

/-- What is left does not start with a character of the class. -/
theorem head_dropWhile {p : Char → Bool} : ∀ x ∈ (cs.dropWhile p).head?, p x = false := by
  intro x hx
  have h := List.head?_dropWhile_not p cs
  rw [Option.mem_def.1 hx] at h
  simpa using h

/-- A run is not longer if what follows does not go on with it. -/
theorem takeWhile_append_of_head {p : Char → Bool} (h : ∀ x ∈ zs.head?, p x = false) :
    (cs ++ zs).takeWhile p = cs.takeWhile p := by
  induction cs with
  | nil =>
    cases zs with
    | nil => rfl
    | cons z zs => exact List.takeWhile_cons_of_neg (by simp [h z rfl])
  | cons x cs ih => rw [List.cons_append, List.takeWhile_cons, List.takeWhile_cons, ih]

/-- Behind layout there are no blanks. -/
theorem dropWhile_blank_layout :
    (cs.dropWhile Text.isLayout).dropWhile Text.isBlank = cs.dropWhile Text.isLayout := by
  cases hz : cs.dropWhile Text.isLayout with
  | nil => rfl
  | cons z zs =>
    have hlayout : Text.isLayout z = false := head_dropWhile z (by rw [hz]; rfl)
    exact List.dropWhile_cons_of_neg fun h => by simp [Text.isLayout, h] at hlayout

/-- Blank lines that end with a line break. -/
theorem breaksLength_append (hw : ∀ y ∈ w, Text.isLayout y) (hx : Text.isBreak x)
    (zs : List Char) : breaksLength (w ++ x :: zs) = w.length + 1 + breaksLength zs := by
  have hwx : ∀ y ∈ w ++ [x], Text.isLayout y := by
    intro y hy
    rcases List.mem_append.1 hy with hy | hy
    · exact hw y hy
    · rw [List.mem_singleton.1 hy]
      exact Text.isLayout_of_isBreak hx
  have hcons : w ++ x :: zs = (w ++ [x]) ++ zs := by simp
  rw [breaksLength, hcons, List.takeWhile_append_of_pos hwx, List.reverse_append,
    List.dropWhile_append, List.reverse_append, breaksLength]
  simp only [List.reverse_cons, List.reverse_nil, List.nil_append, List.singleton_append]
  rw [List.dropWhile_cons_of_neg (by simp [Text.not_isBlank_of_isBreak hx])]
  split
  · rename_i h
    rw [List.isEmpty_iff.1 h]
    simp
  · simp
    omega

/-- Layout up to a line break is blank lines. -/
theorem blankLength_append (hw : ∀ y ∈ w, Text.isLayout y) (hx : Text.isBreak x)
    (zs : List Char) : blankLength (w ++ x :: zs) = w.length + 1 + blankLength zs := by
  have hall : (w ++ x :: zs).all Text.isLayout = zs.all Text.isLayout := by
    rw [List.all_append, List.all_eq_true.2 hw, List.all_cons, Text.isLayout_of_isBreak hx]
    rfl
  rw [blankLength, hall, blankLength]
  split
  · simp
    omega
  · exact breaksLength_append hw hx zs

/-- Blanks that end their line. -/
theorem blankLength_of_blanks (hw : ∀ y ∈ w, Text.isBlank y)
    (hzs : ∀ y ∈ zs.head?, Text.isBreak y) : blankLength (w ++ zs) = w.length + blankLength zs := by
  have hlayout : ∀ y ∈ w, Text.isLayout y := fun y hy => Text.isLayout_of_isBlank (hw y hy)
  cases zs with
  | nil =>
    rw [List.append_nil, blankLength, if_pos (List.all_eq_true.2 hlayout)]
    rfl
  | cons z zs =>
    have hz : Text.isBreak z := hzs z rfl
    have hone : blankLength (z :: zs) = 0 + 1 + blankLength zs :=
      blankLength_append (w := []) nofun hz zs
    rw [blankLength_append hlayout hz, hone]
    omega

/-- Where the first line is not blank there are no blank lines. -/
theorem breaksLength_of_blanks (hw : ∀ y ∈ w, Text.isBlank y)
    (hzs : ∀ y ∈ zs.head?, Text.isLayout y = false) : breaksLength (w ++ zs) = 0 := by
  have htake : (w ++ zs).takeWhile Text.isLayout = w := by
    rw [List.takeWhile_append_of_pos fun y hy => Text.isLayout_of_isBlank (hw y hy)]
    cases zs with
    | nil => simp
    | cons z zs => rw [List.takeWhile_cons_of_neg (by simp [hzs z rfl]), List.append_nil]
  rw [breaksLength, htake, dropWhile_of_all fun y hy => hw y (List.mem_reverse.1 hy)]
  rfl

/-- A line that is not blank is not among them. -/
theorem blankLength_of_line {xs : List Char} (hw : ∀ y ∈ w, Text.isBlank y)
    (hx : Text.isLayout x = false) : blankLength (w ++ x :: xs) = 0 := by
  have hall : (w ++ x :: xs).all Text.isLayout = false := by simp [hx]
  rw [blankLength, hall, if_neg Bool.false_ne_true]
  exact breaksLength_of_blanks hw fun y hy => by cases hy; exact hx

/-- Behind the blank lines is what is no blank and no line break, with its indentation. -/
theorem drop_blankLength (cs : List Char) : ∃ b, (∀ x ∈ b, Text.isBlank x) ∧
    cs.drop (blankLength cs) = b ++ cs.dropWhile Text.isLayout ∧
      (cs.dropWhile Text.isLayout = [] → b = []) := by
  obtain ⟨a, b, hsplit, ha, -, hb⟩ := breaks_split cs
  by_cases hall : ∀ x ∈ cs, Text.isLayout x
  · refine ⟨[], nofun, ?_, fun _ => rfl⟩
    rw [blankLength, if_pos (List.all_eq_true.2 hall), dropWhile_of_all hall, List.drop_length]
    rfl
  · refine ⟨b, hb, ?_, fun hnil => absurd (fun x hx => ?_) hall⟩
    · rw [blankLength, if_neg fun h => hall (List.all_eq_true.1 h), ← ha]
      conv => lhs; rw [hsplit]
      exact List.drop_left
    · have h := List.takeWhile_append_dropWhile (p := Text.isLayout) (l := cs)
      rw [hnil, List.append_nil] at h
      rw [← h] at hx
      exact List.all_eq_true.1 List.all_takeWhile x hx

/-! ## Parsers -/

/-- A line break is one, or two that are taken at once. -/
theorem newline_spec (c : Cursor) (j : σ) :
    (∃ w x xs, c.rest = w ++ x :: xs ∧ (∀ y ∈ w, Text.isBreak y) ∧ Text.isBreak x ∧
      newline c j = .ok () (c.skip (w.length + 1)) j) ∨
    (∀ x ∈ c.rest.head?, Text.isBreak x = false) ∧ ∃ i e, newline c j = .miss i e j := by
  rw [newline]
  split
  · rename_i ys hrest
    refine .inl ⟨['\r'], '\n', ys, hrest, fun y hy => ?_, rfl, rfl⟩
    rw [List.mem_singleton.1 hy]
    rfl
  · rename_i x xs hne hrest
    cases hx : Text.isBreak x with
    | true => exact .inl ⟨[], x, xs, hrest, List.forall_mem_nil _, hx, rfl⟩
    | false =>
      refine .inr ⟨fun y hy => ?_, _, _, rfl⟩
      rw [hrest] at hy
      cases hy
      exact hx
  · rename_i hrest
    exact .inr ⟨by simp [hrest], _, _, rfl⟩

section

variable (c : Cursor)

/-- Blank lines are taken up to their last line break. -/
theorem many_newline (j : σ) : ∃ us,
    many (blanks *> newline) 0 c j = .ok us (c.skip (breaksLength c.rest)) j := by
  induction hn : c.remaining using Nat.strongRecOn generalizing c with
  | ind n ih =>
    subst hn
    let bs := c.rest.takeWhile Text.isBlank
    have hbs : ∀ y ∈ bs, Text.isBlank y := List.all_eq_true.1 List.all_takeWhile
    have hrest : c.rest = bs ++ (c.skipWhile Text.isBlank).rest := by
      rw [Cursor.rest_skipWhile]
      exact List.takeWhile_append_dropWhile.symm
    have hskip : c.skipWhile Text.isBlank = c.skip bs.length := rfl
    have hfirst : (blanks *> newline) c j = newline (c.skipWhile Text.isBlank) j := rfl
    rw [many, hfirst]
    -- Behind the blanks a line ends and less is ahead, or they are no blank line and nothing is
    -- taken.
    obtain ⟨w, x, xs, hnext, hw, hx, hok⟩ | ⟨hbreak, i, e, hmiss⟩ :=
      newline_spec (c.skipWhile Text.isBlank) j
    · have hline : c.rest = (bs ++ w) ++ x :: xs := by rw [hrest, hnext, List.append_assoc]
      have hlayout : ∀ y ∈ bs ++ w, Text.isLayout y := fun y hy =>
        (List.mem_append.1 hy).elim (fun h => Text.isLayout_of_isBlank (hbs y h)) fun h =>
          Text.isLayout_of_isBreak (hw y h)
      have hcursor : (c.skipWhile Text.isBlank).skip (w.length + 1) =
          c.skip ((bs ++ w).length + 1) := by
        rw [hskip, Cursor.skip_skip, List.length_append, Nat.add_assoc]
      have hxs : (c.skip ((bs ++ w).length + 1)).rest = xs := by
        rw [Cursor.rest_skip, hline, List.drop_append]
        simp
      have hless : (c.skip ((bs ++ w).length + 1)).remaining < c.remaining :=
        Cursor.remaining_skip_lt (Nat.succ_pos _) (by rw [hline]; simp)
      obtain ⟨us, hus⟩ := ih _ hless _ rfl
      rw [hok, hcursor]
      dsimp only
      rw [dif_pos hless, Nat.zero_sub, hus, hxs, Cursor.skip_skip, hline,
        breaksLength_append hlayout hx]
      exact ⟨_, rfl⟩
    · have hnone : breaksLength c.rest = 0 := by
        rw [hrest]
        refine breaksLength_of_blanks hbs fun y hy => ?_
        have hblank : Text.isBlank y = false := by
          rw [Cursor.rest_skipWhile] at hy
          exact head_dropWhile y hy
        rw [Text.isLayout, hblank, hbreak y hy]
        rfl
      rw [hmiss, hnone, Cursor.skip_zero]
      exact ⟨_, rfl⟩

/-- Blank lines are taken, also the last one if the source ends there. -/
theorem blankLines_eq (j : σ) : blankLines c j = .ok () (c.skip (blankLength c.rest)) j := by
  obtain ⟨us, hmany⟩ := many_newline c j
  obtain ⟨a, b, hsplit, ha, hla, hb⟩ := breaks_split c.rest
  have hrest : (c.skip (breaksLength c.rest)).rest = b ++ c.rest.dropWhile Text.isLayout := by
    rw [← ha]
    exact Cursor.rest_skip_append hsplit
  have hlast : blankLines c j =
      ((replying (eof ((c.skip (breaksLength c.rest)).skipWhile Text.isBlank) j)).optional
        (c.skip (breaksLength c.rest)) j).map fun _ => () := by
    rw [blankLines, bind_apply, hmany]
    rfl
  have hend : ((c.skip (breaksLength c.rest)).skipWhile Text.isBlank).rest =
      c.rest.dropWhile Text.isLayout := by
    rw [Cursor.rest_skipWhile, hrest, List.dropWhile_append_of_pos hb,
      dropWhile_blank_layout]
  rw [hlast, eof, Cursor.atEnd, hend, blankLength]
  -- Blanks in front of something are left to it, and at the end of the source they are taken.
  by_cases hall : ∀ x ∈ c.rest, Text.isLayout x
  · rw [dropWhile_of_all hall, List.append_nil] at hrest hsplit
    have hlength : breaksLength c.rest + b.length = c.rest.length := by
      rw [← ha, hsplit, List.length_append]
    have htake : b.takeWhile Text.isBlank = b := by
      have h : (b ++ []).takeWhile Text.isBlank = b ++ [].takeWhile Text.isBlank :=
        List.takeWhile_append_of_pos hb
      rwa [List.takeWhile_nil, List.append_nil] at h
    rw [dropWhile_of_all hall, if_pos (List.all_eq_true.2 hall), Cursor.skipWhile, hrest, htake,
      Cursor.skip_skip, hlength]
    rfl
  · have hne : c.rest.dropWhile Text.isLayout ≠ [] := by
      intro hnil
      rw [hnil, List.append_nil] at hsplit
      refine hall fun x hx => ?_
      rw [hsplit] at hx
      exact (List.mem_append.1 hx).elim (hla x) fun h => Text.isLayout_of_isBlank (hb x h)
    have hfalse : (c.rest.dropWhile Text.isLayout).isEmpty = false := by simpa using hne
    rw [hfalse, if_neg (fun h => hall (List.all_eq_true.1 h)), if_neg Bool.false_ne_true]
    rfl

/-- A line ends where nothing is ahead on it, and its end is the first of the blank lines. -/
theorem eol_spec (j : σ) :
    (c.line = [] ∧ ∃ n, eol c j = .ok () (c.skip n) j ∧
        n + blankLength (c.skip n).rest = blankLength c.rest) ∨
      c.line ≠ [] ∧ ∃ i e, eol c j = .miss i e j := by
  change (_ ∧ ∃ n, Parser.orElse newline eof c j = _ ∧ _) ∨
    _ ∧ ∃ i e, Parser.orElse newline eof c j = _
  rw [Parser.orElse, Cursor.line]
  obtain ⟨w, x, xs, hrest, hw, hx, hok⟩ | ⟨hbreak, i, e, hmiss⟩ := newline_spec c j
  · refine .inl ⟨?_, w.length + 1, by rw [hok], ?_⟩
    · rw [hrest]
      cases w with
      | nil => exact List.takeWhile_cons_of_neg (by simp [hx])
      | cons y w => exact List.takeWhile_cons_of_neg (by simp [hw y List.mem_cons_self])
    · have hxs : (c.skip (w.length + 1)).rest = xs := by
        rw [Cursor.rest_skip, hrest, List.drop_append]
        simp
      rw [hxs, hrest, blankLength_append fun y hy => Text.isLayout_of_isBreak (hw y hy)]
      exact hx
  · rw [hmiss]
    dsimp only
    rw [eof, Cursor.atEnd]
    cases hrest : c.rest with
    | nil =>
      refine .inl ⟨rfl, 0, by rw [Cursor.skip_zero]; rfl, ?_⟩
      rw [Cursor.skip_zero, hrest, Nat.zero_add]
    | cons x xs =>
      have hx : Text.isBreak x = false := hbreak x (by rw [hrest]; rfl)
      exact .inr ⟨by simp [hx], _, _, rfl⟩

/-- Nothing but blanks is ahead on the line. -/
def Blank : Prop := (c.skipWhile Text.isBlank).line = []

/-- A line may end here. -/
def EndsLine : Prop := c.atLineStart ∨ Blank c

/-- A line ends where the source does. -/
theorem EndsLine.of_end {c : Cursor} (h : c.rest = []) : EndsLine c := by
  refine .inr ?_
  rw [Blank, Cursor.line, Cursor.rest_skipWhile, h]
  rfl

/-- The end of a line, where it is, is the blank lines that are next, what is left of the line
    being one of them. -/
theorem lineEnd_spec (j : σ) :
    (EndsLine c ∧ lineEnd c j = .ok () (c.skip (blankLength c.rest)) j) ∨
      ¬EndsLine c ∧ ∃ i e, lineEnd c j = .miss i e j := by
  rw [lineEnd]
  by_cases hstart : c.atLineStart
  · rw [if_pos hstart]
    exact .inl ⟨.inl hstart, blankLines_eq c j⟩
  rw [if_neg hstart]
  have hnext : (blanks *> eol *> blankLines : Parser σ Unit) c j =
      (eol (c.skipWhile Text.isBlank) j).bind fun _ => blankLines := rfl
  rw [hnext, EndsLine, Blank]
  obtain ⟨hline, n, hok, hn⟩ | ⟨hline, i, e, hmiss⟩ := eol_spec (c.skipWhile Text.isBlank) j
  · refine .inl ⟨.inr hline, ?_⟩
    rw [hok]
    change blankLines _ j = _
    have hrest : c.rest = c.rest.takeWhile Text.isBlank ++ (c.skipWhile Text.isBlank).rest := by
      rw [Cursor.rest_skipWhile, List.takeWhile_append_dropWhile]
    have hlength : blankLength c.rest = (c.rest.takeWhile Text.isBlank).length +
        blankLength (c.skipWhile Text.isBlank).rest := by
      conv => lhs; rw [hrest]
      refine blankLength_of_blanks (List.all_eq_true.1 List.all_takeWhile) fun y hy => ?_
      obtain ⟨ys, hys, hbreak⟩ := (c.skipWhile Text.isBlank).rest_eq_line
      rw [hline, List.nil_append] at hys
      exact hbreak y (hys ▸ hy)
    rw [blankLines_eq, Cursor.skip_skip, hn, hlength, Cursor.skipWhile, Cursor.skip_skip]
  · refine .inr ⟨fun h => h.elim hstart hline, i, e, ?_⟩
    rw [hmiss]
    rfl

/-- Behind the blank lines a line that is not blank starts, or nothing is ahead. -/
theorem rest_skip_blankLength :
    ((c.skip (blankLength c.rest)).skipWhile Text.isBlank).rest = c.rest.dropWhile Text.isLayout ∧
      ((c.skip (blankLength c.rest)).rest ≠ [] → c.rest.dropWhile Text.isLayout ≠ []) := by
  obtain ⟨b, hb, hdrop, hnil⟩ := drop_blankLength c.rest
  rw [Cursor.rest_skipWhile, Cursor.rest_skip, hdrop]
  refine ⟨?_, fun hne hlayout => hne (by rw [hnil hlayout, hlayout]; rfl)⟩
  rw [List.dropWhile_append_of_pos hb, dropWhile_blank_layout]

end

/-- Two runs agree where both lines end or none does. -/
theorem agree_lineEnd {J : σ → σ → Prop} {P Q : Cursor → Cursor → Prop}
    (hends : ∀ c d, P c d → (EndsLine c ↔ EndsLine d))
    (hQ : ∀ c d, P c d → EndsLine c →
      Q (c.skip (blankLength c.rest)) (d.skip (blankLength d.rest))) :
    Agree J P lineEnd lineEnd Q := by
  intro c d j k hP hJ
  obtain ⟨hc, hok⟩ | ⟨hc, i, e, hmiss⟩ := lineEnd_spec c j
  · obtain ⟨-, hok'⟩ | ⟨hd, -⟩ := lineEnd_spec d k
    · rw [hok, hok']
      exact .ok (hQ c d hP hc) hJ
    · exact absurd ((hends c d hP).1 hc) hd
  · obtain ⟨hd, -⟩ | ⟨-, i', e', hmiss'⟩ := lineEnd_spec d k
    · exact absurd ((hends c d hP).2 hd) hc
    · rw [hmiss, hmiss']
      exact .miss

end Parser

end Dialogue
