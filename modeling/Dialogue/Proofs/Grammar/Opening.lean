import Dialogue.Proofs.Grammar.Amount
import Dialogue.Proofs.Grammar.Heading

/-!
# What a line opens with

Which statement a line is can be told from what it opens with: a line with a heading is dialogue,
and any other is of the kind that its first word says (`Opens`). So where a statement is read
none of those that are tried before it is, in a source that goes on as well.

A pause of an amount with a plus sign is an exception: it also opens with the heading of a line that
is added to those before, and it is a pause only if nothing can be said behind it.
-/

namespace Dialogue

open Dialogue.Parser

namespace Grammar

variable {α : Type} {registry : Registry} {inner : Nested} {c c' c₁ d : Cursor} {f f' f₁ g : Facts}
  {mark : Char} {w w' : String}

/-! ## Words -/

/-- The line opens with a word. -/
def Opens (w : String) (c : Cursor) : Prop := c.line.takeWhile Text.isWord = w.toList

/-- What a line opens with is told by its characters. -/
theorem Opens.of_line (h : Opens w c) (hline : c.line = d.line) : Opens w d := by
  rwa [Opens, ← hline]

/-- A line opens with a word if that is the run of word characters ahead. -/
theorem opens_iff : Opens w c ↔ c.rest.takeWhile Text.isWord = w.toList := by
  rw [Opens, Cursor.line, takeWhile_sight fun _ => not_isBreak_of_class (by decide) (by decide)]

/-- Where a word of the grammar is read the line opens with it. -/
theorem opens_of_keyword (h : keyword w c f = .ok w' c' f') (hw : w.toList.all Text.isWord) :
    Opens w c :=
  opens_iff.2 (of_keyword_eq_ok h hw).2

/-- A line opens with one word only. -/
theorem Opens.misses_keyword (h : Opens w c) (hw : w'.toList.all Text.isWord) (hne : w' ≠ w)
    (f : Facts) : Misses (keyword w') c f :=
  Grammar.misses_keyword hw fun hrun =>
    hne (String.toList_inj.1 (hrun.symm.trans (opens_iff.1 h)))

/-! ## Headings -/

/-- The line opens with no heading. -/
def Plain (c : Cursor) : Prop :=
  ∀ mark, mark = ':' ∨ mark = '+' → ∀ f, Misses (heading mark) c f

/-- The mark of dialogue is no line break. -/
theorem isBreak_mark (hmark : mark = ':' ∨ mark = '+') : Text.isBreak mark = false := by
  rcases hmark with rfl | rfl <;> rfl

/-- Whether a line is plain is told by its characters. -/
theorem Plain.of_line (h : Plain c) (hline : c.line = d.line) : Plain d := fun mark hmark f =>
  (ofLine_heading (isBreak_mark hmark)).misses hline (h mark hmark f) f

/-- A plain line is no dialogue. -/
theorem Plain.misses_dialog (h : Plain c) (hmark : mark = ':' ∨ mark = '+') (f : Facts) :
    Misses (dialog inner mark) c f :=
  Grammar.misses_dialog (isBreak_mark hmark) (h mark hmark f)

/-- Behind the name that a heading starts with its mark is next. -/
theorem next_of_heading {speaker : Option String} (h : heading mark c f = .ok speaker c' f')
    (hword : ∃ x ∈ c.rest.head?, Text.isWord x) (hmark : Text.isWord mark = false) :
    mark ∈ ((c.skipWhile Text.isWord).skipWhile Text.isBlank).rest.head? := by
  obtain ⟨_, c₁, f₁, hspeaker, h⟩ := of_bind_eq_ok h
  obtain ⟨_, c₂, f₂, hblanks, h⟩ := of_bind_eq_ok h
  obtain ⟨_, c₃, f₃, hnext, -⟩ := of_bind_eq_ok h
  cases hblanks
  obtain ⟨xs, hrest, -⟩ := char_eq_ok hnext
  change (c₁.skipWhile Text.isBlank).rest = _ at hrest
  obtain ⟨name, rfl, hname⟩ | ⟨rfl, rfl, rfl, -⟩ := of_optional_eq_ok hspeaker
  · rw [← (of_identifier_eq_ok hname).1, hrest]
    rfl
  · -- Without a name the mark is first.
    obtain ⟨x, hx, hx'⟩ := hword
    rw [Cursor.skipWhile_of_head fun y hy => ?_] at hrest
    · rw [hrest] at hx
      cases hx
      rw [hmark] at hx'
      cases hx'
    · rw [Option.mem_unique hy hx]
      exact Bool.eq_false_iff.2 fun hblank => absurd (Text.isSpace_of_isBlank hblank)
        (by simp [Text.not_isSpace_of_isWord hx'])

/-- A word without a mark behind it is no heading. -/
theorem misses_heading_of_next (hword : keyword w c f = .ok w' c₁ f₁)
    (hw : w.toList.all Text.isWord) (hne : w ≠ "") (hmark : mark = ':' ∨ mark = '+')
    (hnext : mark ∉ (c₁.skipWhile Text.isBlank).rest.head?) (g : Facts) :
    Misses (heading mark) c g := by
  obtain ⟨rfl, hrun⟩ := of_keyword_eq_ok hword hw
  have hhead : ∃ x ∈ c.rest.head?, Text.isWord x := by
    cases hlist : w.toList with
    | nil => exact absurd (String.toList_inj.1 hlist) hne
    | cons x xs =>
      rw [hlist] at hrun
      exact ⟨x, head_of_takeWhile (by rw [hrun]; rfl)⟩
  have hsame := ofLine_heading (isBreak_mark hmark) (c := c) (d := c) g g rfl
  cases hr : heading mark c g with
  | ok speaker c' g' =>
    exact absurd (next_of_heading hr hhead (by rcases hmark with rfl | rfl <;> decide)) hnext
  | miss i e g' => exact ⟨i, e, g', hr⟩
  | fatal i x g' =>
    rw [hr] at hsame
    cases hsame

/-- No other heading is next. -/
theorem misses_heading_of_heading {mark' : Char} {speaker : Option String}
    (h : heading mark c f = .ok speaker c' f') (hne : mark ≠ mark') :
    Misses (heading mark') c f := by
  obtain ⟨_, c₁, f₁, hspeaker, hrest⟩ := of_bind_eq_ok h
  obtain ⟨_, c₂, f₂, hblanks, hsign⟩ := of_bind_eq_ok hrest
  obtain ⟨_, c₃, f₃, hnext, -⟩ := of_bind_eq_ok hsign
  obtain ⟨xs, hxs, -⟩ := char_eq_ok hnext
  refine .after hspeaker (.after hblanks ((misses_char ?_).bind _))
  rw [hxs]
  rintro _ ⟨⟩
  exact hne

/-- No mark of a heading is next. -/
def Unmarked (c : Cursor) : Prop := ∀ x ∈ c.rest.head?, x ≠ ':' ∧ x ≠ '+'

/-- Where no mark is next behind a word there is no heading. -/
theorem plain_of_unmarked (hword : keyword w c f = .ok w' c₁ f₁) (hw : w.toList.all Text.isWord)
    (hne : w ≠ "") (hnext : Unmarked (c₁.skipWhile Text.isBlank)) : Plain c := fun mark hmark =>
  misses_heading_of_next hword hw hne hmark fun hx => hmark.elim (hnext mark hx).1 (hnext mark hx).2

/-! ## Statements -/

/-- A word character or a bracket is no mark of a heading. -/
theorem unmarked_of_head (h : ∃ x ∈ c.rest.head?, Text.isWord x ∨ x = '[') : Unmarked c := by
  obtain ⟨x, hx, hword⟩ := h
  intro y hy
  rw [Option.mem_unique hy hx]
  refine ⟨?_, ?_⟩
  · rintro rfl
    exact absurd hword (by decide)
  · rintro rfl
    exact absurd hword (by decide)

/-- What starts with a word of the grammar has no mark of a heading first. -/
theorem unmarked_of_keyword (h : keyword w c f = .ok w' c' f') (hw : w.toList.all Text.isWord)
    (hne : w ≠ "") : Unmarked c := by
  have hrun := (of_keyword_eq_ok h hw).2
  cases hlist : w.toList with
  | nil => exact absurd (String.toList_inj.1 hlist) hne
  | cons x xs =>
    rw [hlist] at hrun
    obtain ⟨hx, hword⟩ := head_of_takeWhile (x := x) (by rw [hrun]; rfl)
    exact unmarked_of_head ⟨x, hx, .inl hword⟩

/-- What starts with a name has no mark of a heading first. -/
theorem unmarked_of_identifier (h : identifier c f = .ok w c' f') : Unmarked c := by
  obtain ⟨-, x, hx, -⟩ := of_identifier_eq_ok h
  obtain ⟨hx, hword⟩ := head_of_takeWhile hx
  exact unmarked_of_head ⟨x, hx, .inl hword⟩

/-- What starts with an id in brackets has no mark of a heading first. -/
theorem unmarked_of_bracketed (h : bracketed c f = .ok w c' f') : Unmarked c := by
  obtain ⟨_, _, _, hopen, -⟩ := of_bind_eq_ok h
  obtain ⟨xs, hrest, -⟩ := char_eq_ok hopen
  exact unmarked_of_head ⟨'[', by rw [hrest]; rfl, .inr rfl⟩

/-- Blanks are taken as far as they go. -/
theorem of_blanks1_eq_ok {run : List Char} (h : blanks1 c f = .ok run c' f') :
    c' = c.skipWhile Text.isBlank := by
  rw [blanks1, takeWhile1] at h
  split at h <;> cases h
  rfl

/-- Where a line ends behind a word no mark is next. -/
theorem unmarked_of_endsLine (hword : keyword w c f = .ok w' c₁ f₁)
    (hw : w.toList.all Text.isWord) (hne : w ≠ "") (hend : EndsLine c₁) :
    Unmarked (c₁.skipWhile Text.isBlank) := by
  obtain ⟨rfl, hrun⟩ := of_keyword_eq_ok hword hw
  have hstart : ¬(c.skipWhile Text.isWord).atLineStart := by
    refine Cursor.not_atLineStart_skip List.takeWhile_append_dropWhile.symm (fun x hx => ?_) ?_
    · exact not_isBreak_of_class (by decide) (by decide)
        (List.all_eq_true.1 (List.all_takeWhile (p := Text.isWord)) x hx)
    · rw [hrun]
      exact fun hnil => hne (String.toList_inj.1 hnil)
  have hblank := hend.resolve_left hstart
  obtain ⟨ys, hrest, hys⟩ :=
    ((c.skipWhile Text.isWord).skipWhile Text.isBlank).rest_eq_line
  rw [show Cursor.line _ = [] from hblank, List.nil_append] at hrest
  intro x hx
  rw [hrest] at hx
  have hbreak := hys x hx
  refine ⟨?_, ?_⟩
  · rintro rfl
    cases hbreak
  · rintro rfl
    cases hbreak

/-- The end of a line is next behind what answers before it. -/
theorem of_seqLeft_lineEnd {p : Rule α} {a : α} (h : (p <* lineEnd) c f = .ok a c' f') :
    ∃ c₁ f₁, p c f = .ok a c₁ f₁ ∧ EndsLine c₁ := by
  obtain ⟨a, c₁, f₁, hp, h⟩ := of_bind_eq_ok h
  obtain ⟨_, c₂, f₂, hline, h⟩ := of_bind_eq_ok h
  cases h
  obtain ⟨hend, -⟩ | ⟨-, i, e, hmiss⟩ := lineEnd_spec c₁ f₁
  · exact ⟨c₁, f₁, hp, hend⟩
  · rw [hmiss] at hline
    cases hline

/-- A statement that is one word. -/
theorem plain_word {k : String → α} {a : α} (h : (k <$> keyword w : Rule α) c f = .ok a c' f')
    (hend : EndsLine c') (hw : w.toList.all Text.isWord) (hne : w ≠ "") : Plain c := by
  obtain ⟨_, c₁, f₁, hword, h⟩ := of_bind_eq_ok h
  cases h
  exact plain_of_unmarked hword hw hne (unmarked_of_endsLine hword hw hne hend)

/-- A line that clears something is plain. -/
theorem plain_clear {n : Node} (h : clear c f = .ok n c' f') (hend : EndsLine c') :
    Plain c := by
  obtain ⟨_, c₁, f₁, hword, hrest⟩ := of_bind_eq_ok h
  refine plain_of_unmarked hword (by decide) (by decide) ?_
  obtain ⟨more, c₂, f₂, hmore, hkind⟩ := of_bind_eq_ok hrest
  obtain ⟨_, rfl, hsome⟩ | ⟨rfl, rfl, rfl, -⟩ := of_optional_eq_ok hmore
  · -- What is cleared is next behind the blanks.
    obtain ⟨_, c₃, f₃, hblanks, hnot⟩ := of_bind_eq_ok hsome
    obtain ⟨_, c₄, f₄, hfollow, hpure⟩ := of_bind_eq_ok hnot
    cases hpure
    obtain ⟨rfl, rfl, -⟩ := of_notFollowedBy_eq_ok hfollow
    obtain rfl := of_blanks1_eq_ok hblanks
    obtain ⟨kind, c₅, f₅, hwords, -⟩ := of_bind_eq_ok hkind
    have hnext {w : String} {k : String → ClearKind} {c' : Cursor} {f' : Facts}
        (h : (k <$> keyword w : Rule ClearKind) (c₁.skipWhile Text.isBlank) f₂ = .ok kind c' f')
        (hw : w.toList.all Text.isWord) (hne : w ≠ "") :
        Unmarked (c₁.skipWhile Text.isBlank) := by
      obtain ⟨_, _, _, hword, -⟩ := of_bind_eq_ok h
      exact unmarked_of_keyword hword hw hne
    obtain hall | ⟨-, hothers⟩ := of_orElse_eq_ok hwords
    · exact hnext hall (by decide) (by decide)
    obtain hchoices | ⟨-, hdialog⟩ := of_orElse_eq_ok hothers
    · exact hnext hchoices (by decide) (by decide)
    · exact hnext hdialog (by decide) (by decide)
  · cases hkind
    exact unmarked_of_endsLine hword (by decide) (by decide) hend

/-- A jump is a plain line. -/
theorem plain_jump {n : Node} (h : jump c f = .ok n c' f') : Plain c := by
  obtain ⟨_, c₁, f₁, hword, h⟩ := of_bind_eq_ok h
  obtain ⟨_, c₂, f₂, hblanks, h⟩ := of_bind_eq_ok h
  obtain ⟨_, c₃, f₃, hposition, h⟩ := of_bind_eq_ok h
  obtain ⟨id, c₄, f₄, hid, -⟩ := of_bind_eq_ok h
  cases hposition
  refine plain_of_unmarked hword (by decide) (by decide) ?_
  rw [← of_blanks1_eq_ok hblanks]
  obtain hid | ⟨-, hid⟩ := of_orElse_eq_ok hid
  · exact unmarked_of_bracketed hid
  · exact unmarked_of_identifier hid

/-- A label is a plain line. -/
theorem plain_label {o : Outline} (h : label inner c f = .ok o c' f') :
    Plain c := by
  obtain ⟨_, c₁, f₁, hword, h⟩ := of_bind_eq_ok h
  obtain ⟨_, c₂, f₂, hblanks, h⟩ := of_bind_eq_ok h
  obtain ⟨_, c₃, f₃, hposition, h⟩ := of_bind_eq_ok h
  obtain ⟨id, c₄, f₄, hid, -⟩ := of_bind_eq_ok h
  cases hposition
  refine plain_of_unmarked hword (by decide) (by decide) ?_
  rw [← of_blanks1_eq_ok hblanks]
  exact unmarked_of_bracketed hid

/-- A choice is a plain line. -/
theorem plain_choice {o : Outline} (h : choice inner c f = .ok o c' f') :
    Plain c := by
  rw [choice_eq] at h
  obtain ⟨_, c₁, f₁, hword, hrest⟩ := of_bind_eq_ok h
  refine plain_of_unmarked hword (by decide) (by decide) ?_
  obtain ⟨named, c₂, f₂, hnamed, hoffers⟩ := of_bind_eq_ok hrest
  obtain ⟨_, rfl, hsome⟩ | ⟨rfl, rfl, rfl, -⟩ := of_optional_eq_ok hnamed
  · obtain ⟨_, c₃, f₃, hblanks, hnamed⟩ := of_bind_eq_ok hsome
    obtain ⟨_, c₄, f₄, hposition, hbrackets⟩ := of_bind_eq_ok hnamed
    obtain ⟨id, c₅, f₅, hid, -⟩ := of_bind_eq_ok hbrackets
    cases hposition
    obtain rfl := of_blanks1_eq_ok hblanks
    exact unmarked_of_bracketed hid
  · obtain ⟨_, c₃, f₃, hline, -⟩ := of_bind_eq_ok hoffers
    obtain ⟨hend, -⟩ | ⟨-, i, e, hmiss⟩ := lineEnd_spec c₂ f₂
    · exact unmarked_of_endsLine hword (by decide) (by decide) hend
    · rw [hmiss] at hline
      cases hline

/-- The line is read as a pause of an amount that starts with a plus sign. It has a heading as well,
    but nothing can be said behind it. -/
def PausesPlus (registry : Registry) (c : Cursor) : Prop :=
  (∃ n f e c' f', node registry (.upTo registry n) c f = .ok (.pause e) c' f') ∧
    ∃ b xs, (∀ x ∈ b, Text.isBlank x) ∧ c.rest = "pause".toList ++ b ++ '+' :: xs

/-- A pause has no heading, with this exception. -/
theorem plain_pause {k : Nat} {n : Node}
    (h : pause registry (.upTo registry k) c f = .ok n c' f')
    (happend : Misses (append (.upTo registry k)) c f) (hplus : ¬PausesPlus registry c) :
    Plain c := by
  obtain ⟨_, c₁, f₁, hword, hrest⟩ := of_bind_eq_ok h
  obtain ⟨_, c₂, f₂, hblanks, hamount⟩ := of_bind_eq_ok hrest
  obtain ⟨amount, c₃, f₃, hsum, hpause⟩ := of_bind_eq_ok hamount
  obtain rfl := of_blanks1_eq_ok hblanks
  -- The amount is next, and no operand starts with a colon.
  have hcolon : ':' ∉ (c₁.skipWhile Text.isBlank).rest.head? := by
    obtain ⟨_, c₄, f₄, hproduct, -⟩ := of_bind_eq_ok hsum
    obtain ⟨_, c₅, f₅, hfactor, -⟩ := of_bind_eq_ok hproduct
    intro hx
    refine not_colon_of_factor hfactor ':' ?_ rfl
    rwa [Cursor.skipWhile_of_head]
    intro y hy
    rw [Option.mem_unique hy hx]
    rfl
  refine plain_of_unmarked hword (by decide) (by decide) fun x hx => ⟨?_, ?_⟩
  · rintro rfl
    exact hcolon hx
  rintro rfl
  have hopens := opens_of_keyword hword (by decide)
  -- With a plus sign behind it the word would be the exception, as none of the other statements is
  -- read there.
  have hsay : Misses (say (.upTo registry k)) c f :=
    (misses_dialog (by decide)
      (misses_heading_of_next hword (by decide) (by decide) (.inl rfl) hcolon f)).bind _
  have hmiss {w : String} (hw : w.toList.all Text.isWord) (hne : w ≠ "pause") :
      Misses (keyword w) c f := hopens.misses_keyword hw hne f
  have hnode : node registry (.upTo registry k) c f = .ok n c' f' :=
    hsay.orElse_eq <| happend.orElse_eq <|
      ((hmiss (w := "clear") (by decide) (by decide)).bind _).orElse_eq <|
      ((hmiss (w := "choose") (by decide) (by decide)).bind _).orElse_eq <|
      ((hmiss (w := "jump") (by decide) (by decide)).bind _).orElse_eq <|
      ((hmiss (w := "wait") (by decide) (by decide)).bind _).orElse_eq <| orElse_eq h
  obtain ⟨_, c₄, f₄, -, hunit⟩ := of_bind_eq_ok hpause
  obtain ⟨_, c₅, f₅, -, hresult⟩ := of_bind_eq_ok hunit
  cases hresult
  obtain ⟨rfl, hrun⟩ := of_keyword_eq_ok hword (by decide)
  obtain ⟨xs, hxs⟩ := List.head?_eq_some_iff.1 hx
  rw [Cursor.rest_skipWhile] at hxs
  refine hplus ⟨⟨k, f, _, _, _, hnode⟩, (c.skipWhile Text.isWord).rest.takeWhile Text.isBlank, xs,
    List.all_eq_true.1 List.all_takeWhile, ?_⟩
  rw [← hrun, List.append_assoc, ← hxs, List.takeWhile_append_dropWhile, Cursor.rest_skipWhile,
    List.takeWhile_append_dropWhile]

end Grammar

end Dialogue
