import Dialogue.Proofs.Grammar.Extend

/-!
# Headings

A line of dialogue starts with its *heading*, which is a speaker, or none, and a mark. Whether a
heading is next depends on nothing but the line. What is said behind it goes on over the lines that
are indented more, so in a source that goes on it is the same, unless nothing was said before the
end of the source (`follows_dialog`).
-/

namespace Dialogue

open Dialogue.Parser

/-- Nothing is said. -/
def Node.Mute : Node → Prop
  | say _ e => e = .literal (k := .text) ""
  | append _ e => e = .literal (k := .text) ""
  | _ => False

/-- The last thing in a source is a mark. -/
def EndsInMark (source : List Char) : Prop :=
  ∃ x ∈ (source.reverse.dropWhile Text.isLayout).head?, x = ':' ∨ x = '+'

/-- Whether a source ends in a mark of dialogue can be decided. -/
instance (source : List Char) : Decidable (EndsInMark source) := Option.decidableExistsMem _

namespace Grammar

variable {registry : Registry} {inner : Nested} {base : List String} {source more : List Char}
  {m n n' : Nat} {c c' d : Cursor} {f f' : Facts} {e : Expr .text} {mark : Char}

/-- A speaker and a mark. -/
def heading (mark : Char) : Rule (Option String) := do
  let speaker ← optional identifier
  let _ ← blanks
  let _ ← char mark
  return speaker

/-- A heading and what is said. -/
def spoken (inner : Nested) (mark : Char) : Rule (Option String × Expr .text) := do
  let speaker ← heading mark
  let _ ← spaces
  let said ← text inner
  return (speaker, said)

/-- Dialogue is read at the column of its own line. -/
theorem dialog_eq (inner : Nested) (mark : Char) :
    dialog inner mark = atOwnIndent (spoken inner mark) := by
  simp only [dialog, spoken, heading, bind_assoc, pure_bind]

/-- A heading lies on one line. -/
theorem ofLine_heading (hmark : Text.isBreak mark = false) : OfLine (heading mark) :=
  ofSight_identifier.line.optional.bind fun _ =>
    (ofSight_takeWhile fun _ => not_isBreak_of_class rfl rfl).bind fun _ =>
      (ofSight_char hmark).bind fun _ => .pure _

/-- Where no heading is next there is no dialogue. -/
theorem misses_dialog (hmark : Text.isBreak mark = false) (h : Misses (heading mark) c f) :
    Misses (dialog inner mark) c f := by
  have hline : c.line = (c.withReference c.here).line := rfl
  obtain ⟨i, e, f', hown⟩ := (ofLine_heading hmark).misses hline h f
  rw [dialog_eq]
  exact ⟨i, e, f', by rw [atOwnIndent, spoken, bind_apply, hown]; rfl⟩

/-- Behind the mark of a heading. -/
theorem before_of_heading {speaker : Option String} (h : heading mark c f = .ok speaker c' f') :
    c'.before.head? = some mark := by
  obtain ⟨_, c₁, f₁, -, h⟩ := of_bind_eq_ok h
  obtain ⟨_, c₂, f₂, -, h⟩ := of_bind_eq_ok h
  obtain ⟨_, c₃, f₃, hmark, h⟩ := of_bind_eq_ok h
  cases h
  obtain ⟨xs, hrest, rfl⟩ := char_eq_ok hmark
  rw [Cursor.before_skip_one hrest]
  rfl

/-! ## What is said -/

/-- The last line of a source ends a block. -/
theorem block_last {α β : Type} {item : Rule α} (continues : Rule β) (owed : Nat) {a : α}
    {g : Facts} (h : item d f = .ok a c g) (hrest : c.rest = []) :
    ∃ c', block item continues owed d f = .ok [a] c' g ∧ c'.rest = [] := by
  have hskip : (c.skip (blankLength c.rest)).rest = [] := by
    rw [Cursor.rest_skip, hrest, List.drop_nil]
  obtain ⟨-, hok⟩ | ⟨hnot, -⟩ := lineEnd_spec c g
  · have hline : (item <* lineEnd) d f = .ok a (c.skip (blankLength c.rest)) g :=
      (bind_eq h).trans (bind_eq hok)
    refine ⟨_, ?_, hskip⟩
    rw [block, hline]
    exact if_pos (List.isEmpty_iff.2 hskip)
  · exact absurd (.of_end hrest) hnot

/-- At the end of the source nothing is said. -/
theorem text_of_end (inner : Nested) (f : Facts) (h : c.rest = []) :
    ∃ c', c'.rest = [] ∧ text inner c f = .ok (.literal (k := .text) "") c' f := by
  have hblanks : Parser.optional blanks1 c f = .ok none c f := by
    simp [Parser.optional, blanks1, takeWhile1, h]
  have hrun : takeWhile (fun c => !Text.isBreak c && c ≠ openBrace) c f = .ok [] c f := by
    simp [takeWhile, h]
  have hend : wouldMatch eol c f = .ok true c f := by
    obtain ⟨-, n, hok, -⟩ | ⟨hline, -⟩ := eol_spec c f
    · rw [wouldMatch, hok]
    · exact absurd (by rw [Cursor.line, h]; rfl) hline
  have hline : textLine inner c f = .ok (.literal (k := .text) "") c f := by
    rw [textLine, bind_eq hblanks, bind_eq hrun, bind_eq hend]
    rfl
  obtain ⟨c', hblock, hend⟩ := block_last indented 1 hline h
  exact ⟨c', hend, map_eq hblock⟩

/-- Behind the white space after a mark something is said, or the source ends. -/
structure Speaks (source more : List Char) (m : Nat) (c d : Cursor) : Prop where
  /-- The text starts here. -/
  starts : c.rest ≠ [] → Extend Region.Shuts source more m [] c d ∧ Fresh c
  /-- The mark is the last thing in the source. -/
  ended : c.rest = [] → EndsInMark source

/-- Nothing is said behind the mark that is the last thing in the source. -/
def Silence (source : List Char) (e : Expr .text) : Prop :=
  e = .literal (k := .text) "" ∧ EndsInMark source

/-- What is said follows itself, unless nothing is said before the end of the source. -/
theorem follows_said (hmore : Layout.AtMargin more) (hm : 0 < m) :
    Follows base (Speaks source more m) (text (.upTo registry n)) (text (.upTo registry n')) Eq
      (ExtendLine source more m) (Silence source) := by
  intro c d f g e c' f' h hids hr hbase
  by_cases hrest : c.rest = []
  · obtain ⟨c₁, hend, htext⟩ := text_of_end (.upTo registry n) f hrest
    rw [htext] at hr
    cases hr
    exact .inl ⟨hend, rfl, h.ended hrest⟩
  · exact (follows_text hmore hm).closed (h.starts hrest) hids hr hbase

/-- Behind a mark the white space may be taken. -/
theorem agree_gap {J : Facts → Facts → Prop} (hmark : mark = ':' ∨ mark = '+') : Agree J
    (fun c d => Extend Region.Shuts source more m [] c d ∧ c.before.head? = some mark)
    (discard spaces : Rule Unit) (discard spaces) (Speaks source more m) := by
  rintro c d j k ⟨h, hbefore⟩ hJ
  have hspeaks : Speaks source more m (c.skipWhile Text.isSpace) (d.skipWhile Text.isSpace) := by
    refine ⟨fun hne => ⟨h.skipWhile hne, fun _ x xs hrest => ?_⟩, fun hnil => ?_⟩
    · rw [Cursor.rest_skipWhile] at hrest
      exact head_dropWhile x (by rw [hrest]; rfl)
    · have hsplit := List.takeWhile_append_dropWhile (p := Text.isSpace) (l := c.rest)
      rw [← Cursor.rest_skipWhile, hnil, List.append_nil] at hsplit
      have hlayout : ∀ x ∈ c.rest.reverse, Text.isLayout x := fun x hx => by
        have hx := List.mem_reverse.1 hx
        refine h.extended.usual x hx ?_
        rw [← hsplit] at hx
        exact List.all_eq_true.1 List.all_takeWhile x hx
      obtain ⟨xs, hxs⟩ := List.head?_eq_some_iff.1 hbefore
      have hnot : Text.isLayout mark = false := by rcases hmark with rfl | rfl <;> rfl
      refine ⟨mark, ?_, hmark⟩
      rw [← h.source, Cursor.source, List.reverse_append, List.reverse_reverse,
        List.dropWhile_append_of_pos hlayout, hxs, List.dropWhile_cons_of_neg (by simp [hnot])]
      rfl
  exact .ok hspeaks hJ

/-- A heading with what is said follows itself. -/
theorem follows_spoken (hmore : Layout.AtMargin more) (hm : 0 < m)
    (hmark : mark = ':' ∨ mark = '+') :
    Follows base (Extend Region.Shuts source more m []) (spoken (.upTo registry n) mark)
      (spoken (.upTo registry n') mark) Eq (ExtendLine source more m)
      fun said => Silence source said.2 := by
  have hR := aligned_extend Region.tracks_shuts source more m
  have hbreak : Text.isBreak mark = false := by rcases hmark with rfl | rfl <;> rfl
  have hbrace : mark ≠ openBrace := by rcases hmark with rfl | rfl <;> decide
  have hheading (k l : Facts) : Agree (Facts.Idle k.declared l.declared)
      (Extend Region.Shuts source more m []) (heading mark) (heading mark)
      fun c d => Extend Region.Shuts source more m [] c d ∧ c.before.head? = some mark := by
    refine Agree.answers ?_ fun _ _ _ _ _ _ _ hr => before_of_heading hr
    exact (agree_identifier hR).optional.bind fun _ => (agree_blanks hR).bind fun _ =>
      (agree_sign hR hbreak hbrace).bind fun _ => .pure
  refine .after hheading fun speaker => .afterAny (fun _ _ => agree_gap hmark) fun _ _ => ?_
  refine (follows_said hmore hm).bind (fun _ => .pure _) ?_ ?_
  · rintro said _ rfl
    exact .pure rfl
  · rintro said c k _ _ _ hsilence hend ⟨⟩
    exact ⟨hend, hsilence⟩

/-- Dialogue follows itself. -/
theorem follows_dialog (hmore : Layout.AtMargin more) (hmark : mark = ':' ∨ mark = '+') :
    Follows base (Heads (Extend Region.Shuts source more) (Starts source) m)
      (dialog (.upTo registry n) mark) (dialog (.upTo registry n') mark) Eq
      (ExtendLine source more m) fun said => Silence source said.2 := by
  have hfed : Fed (dialog (.upTo registry n) mark) := .of_starved starved_dialog.atOwnIndent
  rw [dialog_eq] at hfed
  rw [dialog_eq, dialog_eq]
  refine Follows.fed (follows_own (inStep_extend hmore source) (B := (0 < ·)) fun k hk => ?_) hfed
    fun c d h hne => ⟨h, hne, c.column_pos⟩
  exact (follows_spoken hmore hk hmark).pre fun _ _ h => h.1

end Grammar

end Dialogue
