import Dialogue.Proofs.Grammar.Region

/-!
# The margin of a text

What a speaker says may go on over several lines. A line is one of the text because it is
indented more than the line that the statement starts on: this is checked before each line of
the block. A substitution may have line breaks in it, and there the tokens of its expression are
checked to be indented like that line at least (`dialogue_margin`). So a line that starts with
an operator may stand right below the statement.

The first line of a text is the one where its first character is, whatever its indentation.
-/

namespace Dialogue.Grammar

open Dialogue.Parser

variable {α : Type} {registry : Registry} {inner : Nested} {start : Nat} {c : Cursor} {x : Char}
  {xs : List Char}

/-! ## Lines of text -/

/-- What is within the margin fits. -/
theorem Within.fits (h : Within start c) : Fits start [] c :=
  fun hc => (h hc.leads).imp_left fun hstart => ⟨rfl, hstart.1⟩

/-- A place behind the first thing on its line is within the margin. -/
theorem within_of_not_leads (h : ¬c.Leads) : Within start c := fun hl => absurd hl h

/-- Behind a character of the line a place is still within the margin. -/
theorem Within.skip_one (h : Within start c) (hrest : c.rest = x :: xs)
    (hx : Text.isBreak x = false) : Within start (c.skip 1) := by
  intro hl
  obtain ⟨hspace, hl⟩ := hl.of_skip_one hrest hx
  rcases h hl with ⟨-, hfirst⟩ | hcolumn
  · -- The text does not start with white space, so nothing leads behind its first character.
    rw [hfirst x xs hrest] at hspace
    cases hspace
  · rw [Cursor.column_skip_one hrest hx]
    exact .inr hcolumn

/-- A run of characters of the line itself. -/
theorem scans_line {σ : Type} {p : Parser σ α}
    (hp : Spans (fun x => !Text.isBreak x && x ≠ openBrace) p) :
    Scans Region.after (Fits start) (Within start) [] p [] (Within start) := by
  refine .token hp (fun x hx => if_neg ?_) (fun _ _ _ hc _ _ => hc.fits)
    fun _ x _ hc hrest hx => hc.skip_one hrest ?_
  · exact of_decide_eq_true (Bool.and_eq_true_iff.1 hx).2
  · exact Bool.not_eq_true' _ ▸ (Bool.and_eq_true_iff.1 hx).1

/-- A line of text stays within the margin. -/
theorem scans_textLine (h : inner.Scan start) :
    Scans Region.after (Fits start) (Within start) [] (textLine inner) [] (Within start) := by
  have hblanks : Scans Region.after (Fits start) (Within start) [] (blanks1 : Rule _) []
      (Within start) := by
    refine scans_line (spans_takeWhile1 fun x hx => ?_)
    simp only [Text.isBlank, Bool.or_eq_true, decide_eq_true_eq] at hx
    rcases hx with rfl | rfl <;> rfl
  have hrun : Scans Region.after (Fits start) (Within start) []
      (takeWhile fun c => !Text.isBreak c && c ≠ openBrace : Rule _) [] (Within start) :=
    scans_line (spans_takeWhile fun _ hx => hx)
  refine (hblanks.optional fun _ h => h).bind fun _ => hrun.bind fun run => ?_
  refine Scans.wouldMatch.bind fun atEnd => .ite (fun _ => ?_) fun _ => ?_
  · split <;> exact .pure
  · refine (scans_substitution h (.inl rfl) fun _ hc => hc.fits).bind fun piece => ?_
    exact (h.textLine.pre fun _ => within_of_not_leads).bind fun _ => .pure

/-- Where nothing may be nested, nothing leaves the margin. -/
theorem scan_none : (Nested.none).Scan start where
  sum _ _ _ _ _ _ _ _ h := nomatch h
  disjunction _ _ _ _ _ _ _ _ h := nomatch h
  unary _ _ _ _ _ _ _ _ h := nomatch h
  operand _ _ _ _ _ _ _ _ h := nomatch h
  quoted _ _ _ _ _ _ _ h := nomatch h
  textLine _ _ _ _ _ _ h := nomatch h

/-- At every depth, nothing leaves the margin. -/
theorem scan_upTo (depth : Nat) : (Nested.upTo registry depth).Scan start := by
  induction depth with
  | zero => exact scan_none
  | succ depth ih => exact {
      sum := covers_sum ih
      disjunction := covers_disjunction ih
      unary := covers_unary ih
      operand := covers_operand ih
      quoted := fun _ => scans_quoted ih
      textLine := scans_textLine ih }

/-- The end of a line, and what there is between two lines of a text. -/
theorem scans_between {σ : Type} {p : Parser σ α} (hp : Spans Text.isSpace p) :
    Scans Region.after (Fits start) (fun _ => True) [] p [] fun _ => True :=
  .token hp (fun _ => after_space (.inr rfl)) (fun _ _ _ _ hrest hx => fits_of_space hrest hx)
    fun _ _ _ _ _ _ => trivial

/-- A line break is white space. -/
theorem spans_newline {σ : Type} : Spans Text.isSpace (newline : Parser σ Unit) := by
  intro c j a c' j' h
  rw [newline] at h
  split at h
  · rename_i ys hrest
    cases h
    exact ⟨['\r', '\n'], ys, hrest, rfl, List.all_eq_true.1 rfl⟩
  · rename_i x ys _ hrest
    split at h
    · rename_i hx
      cases h
      refine ⟨[x], ys, hrest, rfl, fun y hy => ?_⟩
      rw [List.mem_singleton.1 hy]
      exact Text.isSpace_of_isBreak hx
    · cases h
  · cases h

/-- The end of a line opens nothing. -/
theorem scans_lineEnd {σ : Type} :
    Scans Region.after (Fits start) (fun _ => True) [] (lineEnd : Parser σ Unit) []
      fun _ => True := by
  have hblanks : Scans Region.after (Fits start) (fun _ => True) [] (blanks : Parser σ _) []
      fun _ => True := scans_between (spans_takeWhile fun _ => Text.isSpace_of_isBlank)
  have hnewline : Scans Region.after (Fits start) (fun _ => True) [] (newline : Parser σ Unit) []
      fun _ => True := scans_between spans_newline
  have heof : Scans Region.after (Fits start) (fun _ => True) [] (eof : Parser σ Unit) []
      fun _ => True := by
    intro c j a c' j' _ h
    rw [eof] at h
    split at h
    · cases h
      exact ⟨.here [] c, trivial⟩
    · cases h
  have hblankLines : Scans Region.after (Fits start) (fun _ => True) []
      (blankLines : Parser σ Unit) [] fun _ => True :=
    (hblanks.seqRight hnewline).many.bind fun _ =>
      ((hblanks.seqRight heof).optional fun _ h => h).discard
  intro c j a c' j' hc h
  rw [lineEnd] at h
  split at h
  · exact hblankLines hc h
  · exact (hblanks.seqRight ((hnewline.orElse heof).seqRight hblankLines)) hc h

/-- The lines of a text fit. -/
theorem scans_text (h : inner.Scan start) :
    Scans Region.after (Fits start) (Within start) [] (text inner) [] fun _ => True := by
  refine .map (.block ((scans_textLine h).seqLeft (scans_lineEnd.pre fun _ _ => trivial)) ?_)
  intro c j column c' j' _ hcont
  have hblanks : Scans Region.after (Fits start) (fun _ => True) [] (blanks : Rule _) []
      fun _ => True := scans_between (spans_takeWhile fun _ => Text.isSpace_of_isBlank)
  refine ⟨(hblanks (j := j) (c := c) trivial rfl).1, fun _ => .inr ?_⟩
  simp only [indented, indentation] at hcont
  split at hcont
  · rename_i hlt
    exact of_decide_eq_true hlt
  · cases hcont

/-! ## Statements -/

/-- The text of a statement at `c` starts at `t`: behind the speaker, the mark and white space. -/
structure StartsText (mark : Char) (c t : Cursor) : Prop where
  /-- What lies between the statement and its text. -/
  between : ∃ head gap, c.rest = head ++ mark :: (gap ++ t.rest) ∧
    t = c.skip (head ++ mark :: gap).length ∧
    (∀ x ∈ head, Text.isWord x ∨ Text.isBlank x) ∧ ∀ x ∈ gap, Text.isSpace x
  /-- The text does not start with white space. -/
  first : ∀ x xs, t.rest = x :: xs → Text.isSpace x = false

/-- Behind the mark of a statement there is its text, indented like the statement. -/
theorem text_of_dialog {mark : Char} {f f' : Facts} {c' : Cursor}
    {said : Option String × Expr .text} (h : dialog inner mark c f = .ok said c' f') :
    ∃ t c₁ f₁ e, StartsText mark c t ∧ c' = c₁.withReference c.reference ∧
      text inner (t.withReference c.here) f₁ = .ok e c₁ f' := by
  rw [dialog, atOwnIndent] at h
  split at h
  · rename_i hr
    cases h
    obtain ⟨speaker, c₁, f₁, hspeaker, h⟩ := of_bind_eq_ok hr
    obtain ⟨_, c₂, f₂, hblanks, h⟩ := of_bind_eq_ok h
    obtain ⟨_, c₃, f₃, hmark, h⟩ := of_bind_eq_ok h
    obtain ⟨_, c₄, f₄, hspaces, h⟩ := of_bind_eq_ok h
    obtain ⟨e, c₅, f₅, htext, h⟩ := of_bind_eq_ok h
    cases h
    -- The statement is its speaker, blanks, the mark and white space, and then its text.
    have hword : Spans Text.isWord (identifier : Rule String) :=
      (spans_takeWhile1 fun _ h => h).filter.filter.map
    obtain ⟨name, ys, hname, rfl, hnameAll⟩ := hword.optional hspeaker
    obtain ⟨gap, zs, hgap, rfl, hgapAll⟩ := spans_takeWhile (fun _ h => h) hblanks
    obtain ⟨xs, hx, rfl⟩ := char_eq_ok hmark
    obtain ⟨white, ts, hwhite, rfl, hwhiteAll⟩ := spans_takeWhile (fun _ h => h) hspaces
    have hys : ys = gap ++ zs := (Cursor.rest_skip_append hname).symm.trans hgap
    have hzs : zs = mark :: xs := (Cursor.rest_skip_append hgap).symm.trans hx
    have hxs : xs = white ++ ts := (Cursor.rest_skip_one hx).symm.trans hwhite
    have hts := Cursor.rest_skip_append hwhite
    subst hys hzs hxs
    have hlength : (name ++ gap ++ mark :: white).length =
        name.length + (gap.length + (1 + white.length)) := by
      simp only [List.length_append, List.length_cons]
      omega
    have hplace : ((((c.withReference c.here).skip name.length).skip gap.length).skip 1).skip
        white.length =
          (c.skip (name ++ gap ++ mark :: white).length).withReference c.here := by
      rw [hlength, Cursor.skip_skip, Cursor.skip_skip, Cursor.skip_skip]
      rfl
    rw [hplace] at htext hts hspaces
    refine ⟨_, _, _, _, ⟨⟨name ++ gap, white, ?_, rfl, ?_, hwhiteAll⟩, ?_⟩, rfl, htext⟩
    · have hsplit : c.rest = name ++ (gap ++ mark :: (white ++ ts)) := hname
      change c.rest = _ ++ mark :: (white ++ ((c.skip _).withReference c.here).rest)
      rw [hts, hsplit, List.append_assoc]
    · intro x hx
      exact (List.mem_append.1 hx).imp (hnameAll x) (hgapAll x)
    · exact fun x xs hrest => takeWhile_stops hspaces hrest
  · rename_i hne
    exact absurd h (hne _ _ _)

/-- The first thing on a line of a text, other than the first thing of the text itself, is where
    the regions that it is in may have it. -/
theorem dialog_margin {depth : Nat} {mark : Char} {f f' : Facts} {c' : Cursor}
    {said : Option String × Expr .text}
    (h : dialog (.upTo registry depth) mark c f = .ok said c' f') :
    ∃ t n, StartsText mark c t ∧ n ≤ t.rest.length ∧ c' = t.skip n ∧
      ∀ m, 0 < m → m < n → (t.skip m).StartsLine →
        Allowed c.column (Region.afterAll [] (t.rest.take m)) (t.skip m) := by
  obtain ⟨t, c₁, f₁, e, hstarts, rfl, htext⟩ := text_of_dialog h
  have hwithin : Within t.index (t.withReference c.here) :=
    fun _ => .inl ⟨rfl, hstarts.first⟩
  obtain ⟨n, hn, rfl, -, hall⟩ := (scans_text (scan_upTo depth) hwithin htext).1.spelled
  have hn : n ≤ t.rest.length := hn
  refine ⟨t, n, hstarts, hn, ?_, fun m hm hmn hline => ?_⟩
  · obtain ⟨_, _, -, ht, -, -⟩ := hstarts.between
    exact Cursor.eq_of_sides rfl rfl (by rw [ht]; rfl) rfl
  · -- Behind the first character the place is not that of the text.
    have hindex : (t.skip m).index ≠ t.index := by
      have hlength := length_le_byteSize (t.rest.take m)
      rw [List.length_take] at hlength
      rw [Cursor.index_skip]
      omega
    have hfits : Fits t.index (Region.afterAll [] (t.rest.take m))
        ((t.skip m).withReference c.here) := hall m hmn
    exact (hfits ⟨hline.leads, hline.next⟩).resolve_left fun hstart => hindex hstart.2

/-- What a speaker says stays right of the statement, whether it takes the place of the lines
    before or is added to them: every line of it but the first one is indented more, or starts
    in a substitution. In braces a line is indented as much, unless it starts with the first
    thing in them or with the closing brace, and anything may stand between quotes. -/
theorem dialogue_margin {depth : Nat} {f f' : Facts} {c' : Cursor} {n : Node}
    (h : say (.upTo registry depth) c f = .ok n c' f' ∨
      append (.upTo registry depth) c f = .ok n c' f') :
    ∃ mark t k, (mark = ':' ∨ mark = '+') ∧ StartsText mark c t ∧ k ≤ t.rest.length ∧
      c' = t.skip k ∧
      ∀ m, 0 < m → m < k → (t.skip m).StartsLine →
        Allowed c.column (Region.afterAll [] (t.rest.take m)) (t.skip m) := by
  rcases h with h | h
  · obtain ⟨said, _, _, hdialog, hn⟩ := of_bind_eq_ok h
    cases hn
    obtain ⟨t, k, hmargin⟩ := dialog_margin hdialog
    exact ⟨':', t, k, .inl rfl, hmargin⟩
  · obtain ⟨said, _, _, hdialog, hn⟩ := of_bind_eq_ok h
    cases hn
    obtain ⟨t, k, hmargin⟩ := dialog_margin hdialog
    exact ⟨'+', t, k, .inr rfl, hmargin⟩

/-- A statement with an operator right below it, a further line, and what comes after it. -/
def apples : List Char := ": \x7b1\n+ 2\x7d apples,\n  please\nwait".toList

/-- A sum in braces goes on at the column of its statement, and is part of the text. -/
theorem dialogue_margin_apples :
    ∃ n c' f', say (.upTo (fun _ => none) 20) (.ofChars apples 4) .empty = .ok n c' f' ∧
      c'.rest = "wait".toList ∧
      ∃ mark t k, (mark = ':' ∨ mark = '+') ∧ StartsText mark (.ofChars apples 4) t ∧
        k ≤ t.rest.length ∧ c' = t.skip k ∧
        ∀ m, 0 < m → m < k → (t.skip m).StartsLine →
          Allowed (Cursor.ofChars apples 4).column (Region.afterAll [] (t.rest.take m))
            (t.skip m) := by
  have hsay : (say (.upTo (fun _ => none) 20) (.ofChars apples 4) .empty).outcome.toOption.map
      (·.2.rest) = some "wait".toList := by
    decide +kernel
  obtain ⟨n, c', f', hr, hwait⟩ := Reply.of_outcome hsay
  exact ⟨n, c', f', hr, hwait, dialogue_margin (.inl hr)⟩

/-- A line of a text need not be indented more than the statement: this one starts with an
    operator, and what it adds to the text is no blank. -/
theorem dialogue_not_right :
    ∃ n c' f', say (.upTo (fun _ => none) 20) (.ofChars apples 4) .empty = .ok n c' f' ∧
      n.text = ": 3 apples, please" ∧ c'.rest = "wait".toList ∧
      ((Cursor.ofChars apples 4).skip 5).rest = "+ 2\x7d apples,\n  please\nwait".toList ∧
      ((Cursor.ofChars apples 4).skip 5).StartsLine ∧
      ¬(Cursor.ofChars apples 4).column < ((Cursor.ofChars apples 4).skip 5).column := by
  have hsay : (say (.upTo (fun _ => none) 20) (.ofChars apples 4) .empty).outcome.toOption.map
      (fun r => (r.1.text, r.2.rest)) = some (": 3 apples, please", "wait".toList) := by
    decide +kernel
  have hline : ((Cursor.ofChars apples 4).skip 5).behind = [] := by decide +kernel
  have hcolumn : (Cursor.ofChars apples 4).column = 1 ∧
      ((Cursor.ofChars apples 4).skip 5).column = 1 := by decide +kernel
  have hrest : ((Cursor.ofChars apples 4).skip 5).rest =
      "+ 2\x7d apples,\n  please\nwait".toList := by decide +kernel
  obtain ⟨n, c', f', hr, hread⟩ := Reply.of_outcome hsay
  obtain ⟨htext, hwait⟩ := Prod.mk.inj hread
  refine ⟨n, c', f', hr, htext, hwait, hrest, ⟨?_, '+', _, hrest, by decide⟩, ?_⟩
  · rw [Cursor.Leads, hline]
    exact List.forall_mem_nil _
  · rw [hcolumn.1, hcolumn.2]
    exact Nat.lt_irrefl 1

end Dialogue.Grammar
