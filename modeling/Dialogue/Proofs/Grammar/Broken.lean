import Dialogue.Proofs.Cursor.Layout
import Dialogue.Proofs.Grammar.Heading
import Dialogue.Proofs.Grammar.Segment

/-!
# Texts broken over lines

A text may be broken over lines between its segments: it is read to the same tree as on one line,
with single spaces between the segments (`complete_broken`). A line behind the first one is read
where a segment of the line was (`textLine_split`), and the lines are joined by spaces before the
whole is simplified.
-/

namespace Dialogue

open Dialogue.Parser

/-- A part of a text that may stand on a line of its own. -/
structure Segment where
  /-- Its characters. -/
  chars : List Char
  /-- It lies on one line. -/
  line : chars.all (!Text.isBreak ·)
  /-- It starts with no white space. -/
  head : chars.head?.any (!Text.isSpace ·)
  /-- It ends with no white space. -/
  last : chars.getLast?.all (!Text.isSpace ·)
  /-- Its substitutions are closed in it. -/
  closed : Region.afterAll [] chars = []

/-- What stands between two lines of a text: the end of the first one, blank lines, the indentation
    of the second one, and the mark before its text, if it has one. -/
structure LineBreak where
  /-- The end of the line and the blank lines. -/
  breaks : List Char
  /-- The indentation of the next line. -/
  indent : List Char
  /-- What the next line starts with, before its text. -/
  mark : List Char
  /-- A line break is first. -/
  starts : breaks.head?.any Text.isBreak
  /-- A line break is last. -/
  ends : breaks.getLast?.any Text.isBreak
  /-- The lines in between are blank. -/
  blank : breaks.all Text.isLayout
  /-- The next line is indented by blanks. -/
  indented : indent.all Text.isBlank

namespace LineBreak

/-- A break starts with a line break. -/
theorem exists_first (u : LineBreak) : ∃ x xs, u.breaks = x :: xs ∧ Text.isBreak x := by
  have h := u.starts
  cases hx : u.breaks with
  | nil => simp [hx] at h
  | cons x xs => exact ⟨x, xs, rfl, by simpa [hx] using h⟩

/-- A break ends with a line break. -/
theorem exists_last (u : LineBreak) : ∃ xs x, u.breaks = xs ++ [x] ∧ Text.isBreak x := by
  have h := u.ends
  cases hx : u.breaks.getLast? with
  | none => simp [hx] at h
  | some x =>
    obtain ⟨xs, hxs⟩ := List.getLast?_eq_some_iff.1 hx
    exact ⟨xs, x, hxs, by simpa [hx] using h⟩

/-- All characters between the lines. -/
def chars (u : LineBreak) : List Char := u.breaks ++ (u.indent ++ u.mark)

/-- The column of the next line. -/
def column (u : LineBreak) (tabSize : Nat) : Nat := leadingColumn tabSize 1 u.indent

end LineBreak

/-- The mark of a line of a prompt, with blanks behind it. -/
def IsMark (cs : List Char) : Prop := ∃ b, cs = '>' :: b ∧ ∀ x ∈ b, Text.isBlank x

namespace Segment

/-- The text of segments on one line. -/
def joined (t : Segment) (ts : List (LineBreak × Segment)) : List Char :=
  t.chars ++ ts.flatMap fun (_, s) => ' ' :: s.chars

/-- The text of segments on lines of their own. -/
def broken (t : Segment) (ts : List (LineBreak × Segment)) : List Char :=
  t.chars ++ ts.flatMap fun (u, s) => u.chars ++ s.chars

variable {t s : Segment} {ts : List (LineBreak × Segment)} {u : LineBreak}

/-- A segment starts with a character that is not white space. -/
theorem exists_head (t : Segment) : ∃ x xs, t.chars = x :: xs ∧ Text.isSpace x = false := by
  have h := t.head
  cases hx : t.chars with
  | nil => simp [hx] at h
  | cons x xs => exact ⟨x, xs, rfl, by simpa [hx] using h⟩

/-- Joined segments have a space between them. -/
theorem joined_cons : t.joined ((u, s) :: ts) = t.chars ++ ' ' :: s.joined ts := by
  simp [joined]

/-- Broken segments have a break, an indentation and a mark between them. -/
theorem broken_cons : t.broken ((u, s) :: ts) =
    t.chars ++ (u.breaks ++ (u.indent ++ (u.mark ++ s.broken ts))) := by
  simp [broken, LineBreak.chars]

/-- Where a segment is next, no white space is. -/
theorem head_append (t : Segment) (xs : List Char) :
    ∃ x ∈ (t.chars ++ xs).head?, Text.isSpace x = false := by
  obtain ⟨x, ys, hx, hspace⟩ := t.exists_head
  exact ⟨x, by rw [hx]; rfl, hspace⟩

end Segment

namespace Grammar

variable {registry : Registry} {β : Type} {n m : Nat} {Mark : List Char → Prop}
  {deep : Nat → Nat → Prop} {item item' : Rule (Expr .text)} {continues continues' : Rule β}
  {t : Segment} {ts : List (LineBreak × Segment)} {c c' d : Cursor} {f f' g : Facts}
  {e : Expr .text}

/-! ## Lines -/

/-- A block of lines of text. Each of them starts with a mark, and is deep enough if it is not the
    first one. -/
structure Lines (registry : Registry) (m : Nat) (Mark : List Char → Prop) (deep : Nat → Nat → Prop)
    (item : Rule (Expr .text)) (continues : Rule β) : Prop where
  /-- A mark lies on the line of the text behind it. -/
  line {w : List Char} : Mark w → ∀ x ∈ w, Text.isBreak x = false
  /-- It is no part of the indentation. -/
  head {w : List Char} : Mark w → ∀ x ∈ w.head?, Text.isBlank x = false
  /-- Behind the mark there is a line of text. -/
  item {w xs : List Char} {d : Cursor} (g : Facts) : Mark w → d.rest = w ++ xs →
    (∃ x ∈ xs.head?, Text.isSpace x = false) →
    item d g = textLine (.upTo registry m) (d.skip w.length) g
  /-- A line with a mark belongs to the block if it is deep enough. -/
  continues {w xs : List Char} {d : Cursor} (g : Facts) : Mark w → d.rest = w ++ xs →
    deep d.reference.column d.column → ∃ a d' g', continues d g = .ok a d' g'
  /-- Then it is indented like the reference or more. -/
  level {k l : Nat} : deep k l → k ≤ l

/-- The lines of a text are indented further than its statement. -/
theorem lines_text (registry : Registry) (m : Nat) :
    Lines registry m (· = []) (· < ·) (textLine (.upTo registry m)) indented := by
  refine ⟨?_, ?_, ?_, ?_, Nat.le_of_lt⟩
  · rintro _ rfl
    exact List.forall_mem_nil _
  · rintro _ rfl
    exact nofun
  · rintro _ xs d g rfl - -
    rw [List.length_nil, Cursor.skip_zero]
  · rintro w xs d g - - hdeep
    exact ⟨_, _, _, if_pos (decide_eq_true hdeep)⟩

/-- The mark of an option is read with the blanks behind it. -/
theorem promptMark_eq {xs : List Char} (g : Facts) (hrest : d.rest = '>' :: xs) :
    promptMark d g = .ok () ((d.skip 1).skipWhile Text.isBlank) g := by
  have hchar : char '>' d g = .ok '>' (d.skip 1) g := by
    rw [char, satisfy, hrest]
    rfl
  rw [promptMark, bind_eq hchar]
  rfl

/-- The lines of a prompt have its mark. -/
theorem lines_prompt (registry : Registry) (m : Nat) : Lines registry m IsMark (· ≤ ·)
    (promptMark *> textLine (.upTo registry m)) (sameOrIndented <* lookAhead promptMark) := by
  refine ⟨?_, ?_, ?_, ?_, id⟩
  · rintro _ ⟨b, rfl, hb⟩
    exact List.forall_mem_cons.2 ⟨rfl, fun x hx => Text.not_isBreak_of_isBlank (hb x hx)⟩
  · rintro _ ⟨b, rfl, -⟩ _ ⟨⟩
    rfl
  · rintro _ xs d g ⟨b, rfl, hb⟩ hrest ⟨x, hx, hspace⟩
    have hnext : (d.skip 1).rest = b ++ xs := Cursor.rest_skip_one hrest
    have hblanks : (d.skip 1).rest.takeWhile Text.isBlank = b := by
      rw [hnext, takeWhile_append_of_head fun y hy => ?_, takeWhile_of_all hb]
      rw [Option.mem_unique hy hx]
      exact Bool.eq_false_iff.2 fun h => by simp [Text.isSpace_of_isBlank h] at hspace
    have hskip : (d.skip 1).skipWhile Text.isBlank = d.skip ('>' :: b).length := by
      rw [Cursor.skipWhile, hblanks, Cursor.skip_skip, Nat.add_comm, List.length_cons]
    exact (bind_eq (promptMark_eq g hrest)).trans (by rw [hskip])
  · rintro _ xs d g ⟨b, rfl, -⟩ hrest hdeep
    have hindent : sameOrIndented d g = .ok d.column d g := if_pos (decide_eq_true hdeep)
    have hmark : lookAhead promptMark d g = .ok () d g := by
      rw [lookAhead, promptMark_eq g hrest]
    exact ⟨_, _, _, (bind_eq hindent).trans (bind_eq hmark)⟩

/-- The text of lines that are joined by spaces. -/
theorem onto_foldl_spaced (e : Expr .text) (es rest : List (Expr .text)) :
    (es.foldl spaced e).onto rest = e.onto (es.foldr
      (fun d rest => (Expr.literal (k := .text) " ").onto (d.onto rest)) rest) := by
  induction es generalizing e with
  | nil => rfl
  | cons d es ih =>
    rw [List.foldl_cons, ih, spaced, Expr.onto_concat, Expr.onto_concat]
    rfl

/-- Between two lines the end of the first one is read, and where the second one starts. -/
theorem lineEnd_lineBreak {u : LineBreak} {zs : List Char} (g : Facts)
    (hrest : d.rest = u.breaks ++ (u.indent ++ zs))
    (hzs : ∃ x ∈ zs.head?, Text.isLayout x = false) :
    lineEnd d g = .ok () (d.skip u.breaks.length) g ∧
      (d.skip u.breaks.length).skipWhile Text.isBlank =
        (d.skip u.breaks.length).skip u.indent.length ∧
      ((d.skip u.breaks.length).skip u.indent.length).rest = zs ∧
      ((d.skip u.breaks.length).skip u.indent.length).column = u.column d.tabSize := by
  obtain ⟨x, xs, rfl, hx⟩ : ∃ x xs, zs = x :: xs ∧ Text.isLayout x = false := by
    cases zs with
    | nil => obtain ⟨x, ⟨⟩, -⟩ := hzs
    | cons x xs =>
      obtain ⟨y, ⟨⟩, hy⟩ := hzs
      exact ⟨_, xs, rfl, hy⟩
  have hindent : ∀ y ∈ u.indent, Text.isBlank y := List.all_eq_true.1 u.indented
  have hnext : (d.skip u.breaks.length).rest = u.indent ++ x :: xs := Cursor.rest_skip_append hrest
  have hstop : ∀ y ∈ (x :: xs).head?, Text.isBlank y = false := by
    rintro _ ⟨⟩
    exact (Bool.or_eq_false_iff.1 hx).1
  obtain ⟨v, z, hlast, hz⟩ := u.exists_last
  obtain ⟨y, ys, hfirst, hy⟩ := u.exists_first
  -- The breaks end with a line break and a character of the line is next, so all but the
  -- indentation is blank lines.
  have hlength : blankLength d.rest = u.breaks.length := by
    have hv : ∀ y ∈ v, Text.isLayout y := fun y hy =>
      List.all_eq_true.1 u.blank y (hlast ▸ List.mem_append_left _ hy)
    rw [hrest, hlast, List.append_assoc, List.singleton_append, blankLength_append hv hz,
      blankLength_of_line hindent hx, List.length_append]
    rfl
  have hends : EndsLine d := by
    have hhead : d.rest = y :: (ys ++ (u.indent ++ x :: xs)) := by rw [hrest, hfirst]; rfl
    have hstay : d.skipWhile Text.isBlank = d := Cursor.skipWhile_of_head (by
      rw [hhead]
      rintro _ ⟨⟩
      exact Text.not_isBlank_of_isBreak hy)
    refine .inr ?_
    rw [Blank, hstay, Cursor.line, hhead, List.takeWhile_cons_of_neg (by simp [hy])]
  have hstart : (d.skip u.breaks.length).atLineStart := by
    rw [Cursor.atLineStart, Cursor.before_skip, hrest, List.take_left, hlast, List.reverse_append]
    exact hz
  refine ⟨?_, ?_, Cursor.rest_skip_append hnext, ?_⟩
  · obtain ⟨-, hok⟩ | ⟨hnot, -⟩ := lineEnd_spec d g
    · rw [hok, hlength]
    · exact absurd hends hnot
  · rw [Cursor.skipWhile, hnext, takeWhile_append_of_head hstop, takeWhile_of_all hindent]
  · rw [Cursor.column_skip_append hnext fun y hy => Text.not_isBreak_of_isBlank (hindent y hy),
      Cursor.column_eq, Cursor.behind_of_atLineStart hstart, hnext, LineBreak.column]
    exact Layout.leadingColumn_of_head hstop 1

/-- A block goes on with a line that is deep enough. -/
theorem resume_lineBreak (hL : Lines registry m Mark deep item continues) {u : LineBreak}
    {xs : List Char} (owed k : Nat) (g : Facts) (hmark : Mark u.mark)
    (hrest : d.rest = u.breaks ++ (u.indent ++ (u.mark ++ xs)))
    (hxs : ∃ x ∈ xs.head?, Text.isSpace x = false)
    (hdeep : deep d.reference.column (u.column d.tabSize)) :
    ∃ d' g', d'.rest = u.mark ++ xs ∧ d'.column = u.column d.tabSize ∧
      d'.reference = d.reference ∧ d'.tabSize = d.tabSize ∧
      (lineEnd >>= fun _ => resume item continues owed k : Rule _) d g =
        if d'.remaining < k then block item continues (owed - 1) d' g'
        else .fatal d'.index .endless g' := by
  -- The line starts with its mark or, without one, with its text, so its indentation ends there.
  have hhead : ∃ x ∈ (u.mark ++ xs).head?, Text.isLayout x = false := by
    cases hu : u.mark with
    | nil =>
      obtain ⟨x, hx, hspace⟩ := hxs
      refine ⟨x, hx, Bool.eq_false_iff.2 fun hlayout => ?_⟩
      have hsome := (Bool.or_eq_true_iff.1 hlayout).elim Text.isSpace_of_isBlank
        Text.isSpace_of_isBreak
      rw [hspace] at hsome
      cases hsome
    | cons x v =>
      rw [hu] at hmark
      refine ⟨x, rfl, ?_⟩
      rw [Text.isLayout, hL.head hmark x rfl, hL.line hmark x List.mem_cons_self]
      rfl
  obtain ⟨hend, hblanks, hnext, hcolumn⟩ := lineEnd_lineBreak g hrest hhead
  obtain ⟨a, d', g', hcont⟩ := hL.continues g hmark hnext (hcolumn ▸ hdeep)
  have hmore : ¬(d.skip u.breaks.length).atEnd := by
    rw [Cursor.atEnd, Cursor.rest_skip_append hrest]
    obtain ⟨x, hx, -⟩ := hhead
    cases hu : u.mark ++ xs with
    | nil => rw [hu] at hx; cases hx
    | cons y ys => simp
  refine ⟨_, g', hnext, hcolumn, rfl, rfl, ?_⟩
  rw [bind_eq hend, resume, if_neg hmore, hblanks]
  dsimp only
  rw [hcont]

/-- The first segment is read on a line of its own, as it is on the line that goes on behind it. -/
theorem item_split (hL : Lines registry m Mark deep item continues) {w x y : List Char}
    (hw : Mark w) (hc : c.rest = t.chars ++ x) (hd : d.rest = w ++ (t.chars ++ y)) (hx : GoesOn x)
    (hy : ∀ z ∈ y.head?, Text.isBreak z) (hlevel : c.reference.column ≤ c.column)
    (hlevel' : d.reference.column ≤ d.column) (h : textLine (.upTo registry n) c f = .ok e c' f') :
    (item d g).Endless ∨ ∃ e₁ g₁,
      item d g = .ok e₁ ((d.skip w.length).skip t.chars.length) g₁ ∧
        Splits registry (c.skip t.chars.length) e e₁ c' f' x := by
  have hS : Shared [] t.chars x y c (d.skip w.length) := {
    rest := hc
    rest' := Cursor.rest_skip_append hd
    line z hz := by simpa using List.all_eq_true.1 t.line z hz
    last z hz := by simpa using (Option.all_eq_true _ _).1 t.last z hz
    grounded := .inl rfl
    closed := t.closed
    level := hlevel
    level' := by rwa [Cursor.column_skip_append hd (hL.line hw)] }
  rw [hL.item g hw hd (t.head_append y)]
  exact textLine_split hx hy n m hS h

/-- Where a line of segments is read, a block of lines with one segment each is read to texts that
    are joined to the same. -/
theorem block_broken (hL : Lines registry m Mark deep item continues) {owed : Nat}
    (howed : owed ≤ 1) {w : List Char} (hw : Mark w) (hc : c.rest = t.joined ts)
    (hd : d.rest = w ++ t.broken ts) (hlevel : c.reference.column ≤ c.column)
    (hlevel' : d.reference.column ≤ d.column)
    (hts : ∀ p ∈ ts, Mark p.1.mark ∧ deep d.reference.column (p.1.column d.tabSize))
    (h : textLine (.upTo registry n) c f = .ok e c' f') :
    (block item continues owed d g).Endless ∨ ∃ e₁ es d' g',
      block item continues owed d g = .ok (e₁ :: es) d' g' ∧ c'.rest = [] ∧ d'.rest = [] ∧
        ∀ rest, e.onto rest = (es.foldl spaced e₁).onto rest := by
  -- By induction on the segments: behind a space the one goes on, and behind a line break the
  -- other.
  induction ts generalizing t n c d f g e owed w with
  | nil =>
    have hend : c.rest = t.chars ++ [] := by rw [hc]; rfl
    have hend' : d.rest = w ++ (t.chars ++ []) := by rw [hd]; rfl
    obtain hendless | ⟨e₁, g₁, hok, hsplits⟩ :=
      item_split (g := g) hL hw hend hend' (.inl rfl) nofun hlevel hlevel' h
    · rw [block_eq, seqLeft_eq_bind, bind_assoc]
      exact .inl (hendless.bind _)
    · cases hsplits with
      | last hc' honto =>
        subst hc'
        obtain ⟨d', hblock, hd'⟩ := block_last continues owed hok
          (Cursor.rest_skip_append (Cursor.rest_skip_append hend'))
        exact .inr ⟨e₁, [], d', g₁, hblock, Cursor.rest_skip_append hend, hd', honto⟩
  | cons p ts ih =>
    obtain ⟨u, s⟩ := p
    rw [Segment.joined_cons] at hc
    rw [Segment.broken_cons] at hd
    have hx : GoesOn (' ' :: s.joined ts) := .inr ⟨_, rfl, s.head_append _⟩
    have hy : ∀ z ∈ (u.breaks ++ (u.indent ++ (u.mark ++ s.broken ts))).head?, Text.isBreak z := by
      obtain ⟨x, xs, hx, hbreak⟩ := u.exists_first
      rw [hx]
      rintro _ ⟨⟩
      exact hbreak
    obtain hendless | ⟨e₁, g₁, hok, hsplits⟩ :=
      item_split (g := g) hL hw hc hd hx hy hlevel hlevel' h
    · rw [block_eq, seqLeft_eq_bind, bind_assoc]
      exact .inl (hendless.bind _)
    · cases hsplits with
      | space hline honto =>
        obtain ⟨⟨hmark, hdeep⟩, hts⟩ := List.forall_mem_cons.1 hts
        have hturn := Cursor.rest_skip_append (Cursor.rest_skip_append hd)
        obtain ⟨d', g', hnext, hcolumn, hreference, htabSize, hresume⟩ :=
          resume_lineBreak hL owed d.remaining g₁ hmark hturn (s.head_append _) hdeep
        have hline' : ((c.skip t.chars.length).skip 1).rest = s.joined ts :=
          Cursor.rest_skip_one (Cursor.rest_skip_append hc)
        have hcolumn' : ((c.skip t.chars.length).skip 1).column = c.column := by
          rw [Cursor.column_skip_one (Cursor.rest_skip_append hc) rfl, Cursor.column_skip_append hc]
          exact fun z hz => by simpa using List.all_eq_true.1 t.line z hz
        have hdeep' : d'.reference.column ≤ d'.column := by
          rw [hreference, hcolumn]
          exact hL.level hdeep
        have hts' : ∀ p ∈ ts, Mark p.1.mark ∧ deep d'.reference.column (p.1.column d'.tabSize) := by
          rw [hreference, htabSize]
          exact hts
        have howed' : owed - 1 ≤ 1 := Nat.le_trans (Nat.sub_le owed 1) howed
        have hrest := ih howed' hmark (g := g') hline' hnext (hcolumn' ▸ hlevel) hdeep' hts' hline
        rw [block_of_item hok, hresume]
        split
        · obtain ⟨_, _, hendless⟩ | ⟨e₂, es, d₁, g₂, hok, hc', hd', honto'⟩ := hrest
          · exact .inl ⟨_, _, by rw [hendless]; rfl⟩
          · refine .inr ⟨e₁, e₂ :: es, d₁, g₂, by rw [hok]; rfl, hc', hd', fun rest => ?_⟩
            rw [honto, honto', onto_foldl_spaced, onto_foldl_spaced]
            rfl
        · exact .inl ⟨_, _, rfl⟩

/-- Lines of segments are read to the same text as the segments on one line. -/
theorem joinLines_broken (hL' : Lines registry n Mark deep item' continues')
    (hL : Lines registry m Mark deep item continues) {w : List Char} (hw : Mark w)
    (hc : c.rest = w ++ t.joined ts) (hd : d.rest = w ++ t.broken ts)
    (hlevel : c.reference.column ≤ c.column) (hlevel' : d.reference.column ≤ d.column)
    (hts : ∀ p ∈ ts, Mark p.1.mark ∧ deep d.reference.column (p.1.column d.tabSize))
    (h : (joinLines <$> block item' continues' 1 : Rule _) c f = .ok e c' f') :
    ((joinLines <$> block item continues 1 : Rule _) d g).Endless ∨
      ∃ d' g', (joinLines <$> block item continues 1 : Rule _) d g = .ok e d' g' ∧
        d'.rest = [] := by
  obtain ⟨es, c₁, f₁, hblock, hjoin⟩ := of_bind_eq_ok h
  cases hjoin
  obtain ⟨e, c₂, f₂, -, hfirst, -, -⟩ := block_eq_ok hblock
  obtain ⟨_, c₃, f₃, hitem, -⟩ := of_bind_eq_ok hfirst
  have hline := hitem
  rw [hL'.item f hw hc (t.head_append _)] at hline
  have hlevel₁ : (c.skip w.length).reference.column ≤ (c.skip w.length).column := by
    rwa [Cursor.column_skip_append hc (hL.line hw)]
  obtain hendless | ⟨e₁, es', d', g', hok, hend, hend', honto⟩ :=
    block_broken (g := g) hL (Nat.le_refl 1) hw (Cursor.rest_skip_append hc) hd hlevel₁ hlevel' hts
      hline
  · exact .inl (hendless.bind _)
  · -- The line ends the source, so it is the only one of its block.
    obtain ⟨c₄, hsole, -⟩ := block_last continues' 1 hitem hend
    rw [hblock] at hsole
    cases hsole
    have hsame : joinLines (e₁ :: es') = joinLines [_] := Expr.simplify_eq_of_onto (honto []).symm
    exact .inr ⟨d', g', hsame ▸ map_eq hok, hend'⟩

/-! ## Dialogue -/

/-- A heading with these characters before its mark is the same before any text. -/
theorem heading_eq {mark : Char} {name xs ys : List Char} {speaker : Option String}
    (hname : ∀ x ∈ name, Text.isWord x) (hmark : mark = ':' ∨ mark = '+')
    (hc : c.rest = name ++ mark :: xs) (hd : d.rest = name ++ mark :: ys)
    (h : heading mark c f = .ok speaker c' f') :
    c' = c.skip (name.length + 1) ∧
      heading mark d g = .ok speaker (d.skip (name.length + 1)) g := by
  obtain ⟨hword, hblank⟩ : Text.isWord mark = false ∧ Text.isBlank mark = false := by
    rcases hmark with rfl | rfl <;> exact ⟨by decide, by decide⟩
  have hsight {c : Cursor} {xs : List Char} (hc : c.rest = name ++ mark :: xs) :
      c.sight (!Text.isWord ·) = name := by
    rw [Cursor.sight, hc]
    simp only [Bool.not_not]
    rw [takeWhile_append_of_head (fun y hy => by cases hy; exact hword), takeWhile_of_all hname]
  have hspeaker : OfSight (!Text.isWord ·) (Parser.optional identifier : Rule _) :=
    ((ofSight_takeWhile1 (fun _ hx => by simp [hx]) _).filter.filter.map).optional
  have hblanks {n : Nat} {c : Cursor} {xs : List Char} (hc : c.rest = name ++ mark :: xs)
      (hn : n ≤ name.length) (g : Facts) : blanks (c.skip n) g = .ok [] (c.skip n) g := by
    have hnone : (c.skip n).rest.takeWhile Text.isBlank = [] := by
      rw [Cursor.rest_skip, hc, List.drop_append_of_le_length hn]
      cases hdrop : name.drop n with
      | nil => exact List.takeWhile_cons_of_neg (by simp [hblank])
      | cons y v =>
        have hy := hname y (List.mem_of_mem_drop (hdrop ▸ List.mem_cons_self))
        refine List.takeWhile_cons_of_neg fun hb => ?_
        have hspace := Text.not_isSpace_of_isWord hy
        rw [Text.isSpace_of_isBlank hb] at hspace
        cases hspace
    rw [blanks, takeWhile, hnone, List.length_nil, Cursor.skip_zero]
  obtain ⟨o, c₁, f₁, hopt, h⟩ := of_bind_eq_ok h
  have hsame := hspeaker f g ((hsight hc).trans (hsight hd).symm)
  rw [hopt] at hsame
  generalize hopt' : Parser.optional identifier d g = r at hsame
  generalize hplace : c₁ = c₀ at hsame
  cases hsame with
  | @ok _ n hn =>
    subst hplace
    rw [hsight hc] at hn
    rw [bind_eq (hblanks hc hn f)] at h
    obtain ⟨_, c₂, f₂, hchar, h⟩ := of_bind_eq_ok h
    obtain ⟨zs, hzs, rfl⟩ := char_eq_ok hchar
    cases h
    -- The mark is no character of the speaker, so all of the speaker was taken.
    obtain rfl : n = name.length := by
      rw [Cursor.rest_skip, hc, List.drop_append_of_le_length hn] at hzs
      cases hdrop : name.drop n with
      | nil => exact Nat.le_antisymm hn (List.drop_eq_nil_iff.1 hdrop)
      | cons y v =>
        rw [hdrop] at hzs
        have hy := hname y (List.mem_of_mem_drop (hdrop ▸ List.mem_cons_self))
        rw [(List.cons.inj hzs).1, hword] at hy
        cases hy
    refine ⟨Cursor.skip_skip _ _ _, ?_⟩
    have hmark' : char mark (d.skip name.length) g = .ok mark (d.skip (name.length + 1)) g := by
      rw [char, satisfy, Cursor.rest_skip_append hd]
      simp only [decide_true, if_true, Cursor.skip_skip]
    rw [heading, bind_eq hopt', bind_eq (hblanks hd (Nat.le_refl _) g), bind_eq hmark']
    rfl

/-- What is said in broken segments is what is said in joined ones. -/
theorem spoken_broken {mark : Char} {name : List Char} (hname : ∀ x ∈ name, Text.isWord x)
    (hmark : mark = ':' ∨ mark = '+') (hc : c.rest = name ++ mark :: ' ' :: t.joined ts)
    (hd : d.rest = name ++ mark :: ' ' :: t.broken ts) (hlevel : c.reference.column ≤ c.column)
    (hlevel' : d.reference.column ≤ d.column)
    (hts : ∀ p ∈ ts, p.1.mark = [] ∧ d.reference.column < p.1.column d.tabSize)
    {said : Option String × Expr .text} (h : spoken (.upTo registry n) mark c f = .ok said c' f') :
    (spoken (.upTo registry m) mark d g).Endless ∨
      ∃ d' g', spoken (.upTo registry m) mark d g = .ok said d' g' ∧ d'.rest = [] := by
  have hplain : ∀ x ∈ name ++ [mark, ' '], Text.isBreak x = false := by
    refine List.forall_mem_append.2 ⟨fun x hx => ?_, ?_⟩
    · exact Region.isBreak_of_isPlain (isPlain_of_isWord (hname x hx))
    · refine List.forall_mem_cons.2 ⟨?_, List.forall_mem_singleton.2 rfl⟩
      rcases hmark with rfl | rfl <;> rfl
  -- Behind the mark both have one space, since a segment does not start with white space.
  have hgap {c : Cursor} {zs : List Char} (hc : c.rest = name ++ mark :: ' ' :: (t.chars ++ zs))
      (f : Facts) : spaces (c.skip (name.length + 1)) f =
        .ok [' '] (c.skip (name ++ [mark, ' ']).length) f := by
    obtain ⟨x, hx, hspace⟩ := t.head_append zs
    have htake : (c.skip (name.length + 1)).rest.takeWhile Text.isSpace = [' '] := by
      rw [← Cursor.skip_skip, Cursor.rest_skip_one (Cursor.rest_skip_append hc),
        List.takeWhile_cons_of_pos (by decide), ← List.nil_append (t.chars ++ zs),
        takeWhile_append_of_head fun y hy => Option.mem_unique hx hy ▸ hspace]
      rfl
    rw [spaces, takeWhile, htake, Cursor.skip_skip, List.length_append]
    rfl
  obtain ⟨speaker, c₁, f₁, hheading, h⟩ := of_bind_eq_ok h
  obtain ⟨rfl, hheading'⟩ := heading_eq (g := g) hname hmark hc hd hheading
  rw [bind_eq (hgap hc f₁)] at h
  obtain ⟨e, c₃, f₃, htext, h⟩ := of_bind_eq_ok h
  cases h
  have hc' : c.rest = name ++ [mark, ' '] ++ t.joined ts := by rw [hc, List.append_assoc]; rfl
  have hd' : d.rest = name ++ [mark, ' '] ++ t.broken ts := by rw [hd, List.append_assoc]; rfl
  have hjoin := joinLines_broken (g := g) (lines_text registry n) (lines_text registry m) rfl
    (Cursor.rest_skip_append hc') (Cursor.rest_skip_append hd')
    (by rwa [Cursor.column_skip_append hc' hplain]) (by rwa [Cursor.column_skip_append hd' hplain])
    hts htext
  rw [spoken, bind_eq hheading', bind_eq (hgap hd g), text]
  obtain hendless | ⟨d', g', hok, hend⟩ := hjoin
  · exact .inl (hendless.bind _)
  · exact .inr ⟨d', g', bind_eq hok, hend⟩

/-- What is said may be broken over lines that are indented more than the heading. -/
theorem dialog_broken {mark : Char} {name : List Char} (hname : ∀ x ∈ name, Text.isWord x)
    (hmark : mark = ':' ∨ mark = '+') (hc : c.rest = name ++ mark :: ' ' :: t.joined ts)
    (hd : d.rest = name ++ mark :: ' ' :: t.broken ts)
    (hts : ∀ p ∈ ts, p.1.mark = [] ∧ d.column < p.1.column d.tabSize)
    {said : Option String × Expr .text} (h : dialog (.upTo registry n) mark c f = .ok said c' f') :
    (dialog (.upTo registry m) mark d g).Endless ∨
      ∃ d' g', dialog (.upTo registry m) mark d g = .ok said d' g' ∧ d'.rest = [] := by
  rw [dialog_eq] at h ⊢
  obtain ⟨c₁, hspoken, -⟩ := of_atOwnIndent_eq_ok h
  rw [atOwnIndent]
  obtain ⟨_, _, hendless⟩ | ⟨d₁, g₁, hok, hend⟩ := spoken_broken (m := m) (g := g)
    (c := c.withReference c.here) (d := d.withReference d.here) hname hmark hc hd (Nat.le_refl _)
    (Nat.le_refl _) hts hspoken
  · exact .inl ⟨_, _, by rw [hendless]⟩
  · exact .inr ⟨d₁.withReference d.reference, g₁, by rw [hok], hend⟩

/-- A rule that answers at one place answers the same at another one, up to the end of the
    source. -/
def EndsAlike {α : Type} (p : Rule α) (c d : Cursor) : Prop :=
  ∀ f g a c' f', p c f = .ok a c' f' → ∃ d' g', p d g = .ok a d' g' ∧ d'.rest = []

/-- A rule with all that can be nested in it always has an end. -/
theorem complete_ends {rule : Nested → Rule α}
    (h : ∀ {o n inner}, Nested.Stay o n inner → (rule inner).Stays o (n + 1)) (c : Cursor)
    (f : Facts) : ¬(complete registry rule c f).Endless := by
  rintro ⟨i, g, hr⟩
  have hstays : (complete registry rule).Stays c (c.remaining + 1) := walks_complete h
  have hwalk := hstays f (.refl c) (Nat.lt_succ_self c.remaining)
  exact (hwalk.of_fatal (congrArg Reply.outcome hr)).2 rfl

/-- Dialogue in broken segments ends like that in joined ones. -/
theorem endsAlike_dialog {mark : Char} {name : List Char}
    {build : Option String × Expr .text → Node} (hname : ∀ x ∈ name, Text.isWord x)
    (hmark : mark = ':' ∨ mark = '+')
    (hts : ∀ p ∈ ts, p.1.mark = [] ∧ d.column < p.1.column d.tabSize)
    (hc : c.rest = name ++ mark :: ' ' :: t.joined ts)
    (hd : d.rest = name ++ mark :: ' ' :: t.broken ts) :
    EndsAlike (complete registry fun inner => build <$> dialog inner mark) c d := by
  intro f g node c' f' h
  obtain ⟨said, c₁, f₁, hsaid, hnode⟩ := of_bind_eq_ok h
  cases hnode
  obtain hendless | ⟨d', g', hok, hend⟩ :=
    dialog_broken (m := d.remaining) (g := g) hname hmark hc hd hts hsaid
  · have hnever : ¬(complete registry (build <$> dialog · mark) d g).Endless :=
      complete_ends (fun h => (walks_dialog h mark).map.stays) d g
    exact absurd (hendless.bind _) hnever
  · exact ⟨d', g', map_eq hok, hend⟩

/-- A text may be broken over lines between its segments. What a speaker says is the same whether
    it is on one line, with single spaces between the segments, or each segment but the first one is
    on a line of its own that is indented more than the speaker's; so is the prompt of an option
    if each line has its mark and is indented like the option or more. -/
theorem complete_broken (registry : Registry) (t : Segment) (ts : List (LineBreak × Segment))
    (c d : Cursor) :
    ((∀ p ∈ ts, p.1.mark = [] ∧ d.column < p.1.column d.tabSize) →
      ∀ speaker : List Char, (∀ x ∈ speaker, Text.isWord x) →
        (c.rest = speaker ++ ':' :: ' ' :: t.joined ts →
          d.rest = speaker ++ ':' :: ' ' :: t.broken ts → EndsAlike (complete registry say) c d) ∧
        (c.rest = speaker ++ '+' :: ' ' :: t.joined ts →
          d.rest = speaker ++ '+' :: ' ' :: t.broken ts →
            EndsAlike (complete registry append) c d)) ∧
      ((∀ p ∈ ts, IsMark p.1.mark ∧ d.reference.column ≤ p.1.column d.tabSize) →
        c.reference.column ≤ c.column → d.reference.column ≤ d.column →
        ∀ mark, IsMark mark → c.rest = mark ++ t.joined ts → d.rest = mark ++ t.broken ts →
          EndsAlike (complete registry prompt) c d) := by
  refine ⟨fun hts speaker hname => ⟨fun hc hd => ?_, fun hc hd => ?_⟩, ?_⟩
  · exact endsAlike_dialog hname (.inl rfl) hts hc hd
  · exact endsAlike_dialog hname (.inr rfl) hts hc hd
  · intro hts hlevel hlevel' mark hmark hc hd f g e c' f' h
    obtain hendless | ⟨d', g', hok, hend⟩ := joinLines_broken (g := g)
      (lines_prompt registry c.remaining) (lines_prompt registry d.remaining) hmark hc hd hlevel
      hlevel' hts h
    · -- As many rules as there are bytes ahead may be nested, so the second one is read to an end.
      exact absurd hendless (complete_ends (fun h => (walks_prompt h).stays) d g)
    · exact ⟨d', g', hok, hend⟩

end Grammar

namespace Segment

/-- How many apples there are. -/
def apples : Segment where
  chars := "\x7bcount\x7d apples".toList
  line := by decide
  head := by decide
  last := by decide
  closed := by decide

/-- How many pears there are. -/
def pears : Segment where
  chars := "and \x7bcount * 2\x7d pears".toList
  line := by decide
  head := by decide
  last := by decide
  closed := by decide

end Segment

/-- A blank line, and an indented one with a mark. -/
def LineBreak.double (mark : List Char) : LineBreak where
  breaks := "\n\t\n".toList
  indent := "  ".toList
  mark := mark
  starts := by decide
  ends := by decide
  blank := by decide
  indented := by decide

open Grammar

/-- Two segments on one line and on two, with a blank line between them, said by a speaker, added to
    what was said, and as a prompt. -/
theorem Grammar.complete_broken_apples :
    let text := Segment.apples.joined [(.double [], .pears)]
    let lines := Segment.apples.broken [(.double [], .pears)]
    let choices := Segment.apples.broken [(.double ">".toList, .pears)]
    (∃ node c f d g,
      complete (fun _ => none) say (.ofChars ("bob: ".toList ++ text) 4) .empty = .ok node c f ∧
      complete (fun _ => none) say (.ofChars ("bob: ".toList ++ lines) 4) .empty = .ok node d g ∧
        d.rest = []) ∧
    (∃ node c f d g,
      complete (fun _ => none) append (.ofChars ("bob+ ".toList ++ text) 4) .empty = .ok node c f ∧
      complete (fun _ => none) append (.ofChars ("bob+ ".toList ++ lines) 4) .empty = .ok node d g ∧
        d.rest = []) ∧
    ∃ e c f d g,
      complete (fun _ => none) prompt (.ofChars (">".toList ++ text) 4) .empty = .ok e c f ∧
      complete (fun _ => none) prompt (.ofChars (">".toList ++ choices) 4) .empty = .ok e d g ∧
        d.rest = [] := by
  have hpair {α : Type} {p : Rule α} {c d : Cursor} (h : EndsAlike p c d)
      (hok : (p c .empty).outcome.isOk) :
      ∃ a c' f d' g, p c .empty = .ok a c' f ∧ p d .empty = .ok a d' g ∧ d'.rest = [] := by
    cases hr : p c .empty with
    | ok a c' f =>
      obtain ⟨d', g, hd, hrest⟩ := h .empty .empty a c' f hr
      exact ⟨a, c', f, d', g, rfl, hd, hrest⟩
    | miss => rw [hr] at hok; cases hok
    | fatal => rw [hr] at hok; cases hok
  have hsaid (c d : Cursor) (hcolumn : d.column = 1) (htabSize : d.tabSize = 4) :=
    (complete_broken (fun _ => none) .apples [(.double [], .pears)] c d).1
      (List.forall_mem_singleton.2 ⟨rfl, by rw [hcolumn, htabSize]; decide⟩) "bob".toList
      (List.all_eq_true.1 (by decide))
  have hasked (c d : Cursor) (hreference : d.reference.column = 1) (htabSize : d.tabSize = 4) :=
    (complete_broken (fun _ => none) .apples [(.double ">".toList, .pears)] c d).2
      (List.forall_mem_singleton.2
        ⟨⟨[], rfl, List.forall_mem_nil _⟩, by rw [hreference, htabSize]; decide⟩)
  refine ⟨?_, ?_, ?_⟩
  · exact hpair ((hsaid _ _ (by decide +kernel) rfl).1 rfl rfl) (by decide +kernel)
  · exact hpair ((hsaid _ _ (by decide +kernel) rfl).2 rfl rfl) (by decide +kernel)
  · exact hpair (hasked _ _ rfl rfl (by decide +kernel) (by decide +kernel) ">".toList
      ⟨[], rfl, List.forall_mem_nil _⟩ rfl rfl) (by decide +kernel)

end Dialogue
