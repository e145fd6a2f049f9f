import Dialogue.Proofs.Grammar.Agree
import Dialogue.Proofs.Grammar.Margin
import Dialogue.Proofs.Parser.Blank

/-!
# Statements that are read alike
-/

namespace Dialogue

open Dialogue.Parser

/-- Places of two sources behind a rule: on a line, or where the next line starts. -/
def Behind (R : Nat → List Region → Cursor → Cursor → Prop) (L : Nat → Cursor → Cursor → Prop)
    (m : Nat) (c d : Cursor) : Prop :=
  R m [] c d ∨ L m c d

/-- Relations of places that keep whole statements the same, one for each column of the line of the
    references, with relations `L` of the places behind the ends of lines. -/
structure Levelled (R : Nat → List Region → Cursor → Cursor → Prop)
    (L : Nat → Cursor → Cursor → Prop) : Prop where
  /-- Expressions are the same. -/
  aligned (m) : Aligned (R m)
  /-- The lines of the references have the column. -/
  reference {m c d} : R m [] c d → c.reference.column = m ∧ d.reference.column = m
  /-- A substitution may be entered. -/
  brace {m c d xs} : R m [] c d → c.line = Grammar.openBrace :: xs →
    R m [.braces] (c.skip 1) (d.skip 1)
  /-- An expression may start on the line itself, as it may in parentheses. -/
  bare {m c d} : R m [] c d ↔ R m [.parens] c d
  /-- The references may be changed. -/
  withReference {m n c d r r'} : R m [] c d → r.column = n → r'.column = n →
    R n [] (c.withReference r) (d.withReference r')
  /-- So may they be where a line starts. -/
  withReference' {m n c d r r'} : L m c d → r.column = n → r'.column = n →
    L n (c.withReference r) (d.withReference r')
  /-- White space may be taken, also behind a line. -/
  gap {m c d} : Behind R L m c d →
    R m [] (c.skipWhile Text.isSpace) (d.skipWhile Text.isSpace)
  /-- So may the end of a line. -/
  lineEnd {m} {J : Facts → Facts → Prop} :
    Agree J (Behind R L m) (lineEnd : Rule Unit) lineEnd (L m)
  /-- Behind a line the sources end at once. -/
  atEnd {m c d} : L m c d → c.atEnd = d.atEnd
  /-- Else something follows the blanks there. -/
  next {m c d} : L m c d → ¬c.atEnd →
    R m [] (c.skipWhile Text.isBlank) (d.skipWhile Text.isBlank) ∧
      (c.skipWhile Text.isBlank).rest ≠ []

/-- The sources may be exchanged. -/
theorem Levelled.swap {R : Nat → List Region → Cursor → Cursor → Prop}
    {L : Nat → Cursor → Cursor → Prop} (h : Levelled R L) :
    Levelled (fun m s c d => R m s d c) fun m c d => L m d c where
  aligned m := (h.aligned m).swap
  reference hR := (h.reference hR).symm
  brace hR hline := h.brace hR (((h.aligned _).line hR).trans hline)
  bare := h.bare
  withReference hR hr hr' := h.withReference hR hr' hr
  withReference' hL hr hr' := h.withReference' hL hr' hr
  gap hB := h.gap hB
  lineEnd {m J} := (h.lineEnd (m := m) (J := fun j k => J k j)).swap
  atEnd hL := (h.atEnd hL).symm
  next hL hend := by
    obtain ⟨hR, hne⟩ := h.next hL (by rwa [h.atEnd hL])
    exact ⟨hR, fun hnil => hne (((h.aligned _).nil hR).2 hnil)⟩

namespace Grammar

variable {α : Type} {registry : Registry} {inner inner' : Nested} {D E : List (Found String)}
  {x : Char}

/-! ## Tokens on the line itself -/

section

variable {R : List Region → Cursor → Cursor → Prop} {J : Facts → Facts → Prop} {p q : Rule α}

/-- A token of a line agrees where its characters open nothing. -/
theorem agree_onLine (hR : Aligned R) {A : Char → Bool} (hp : OfLine p) (hA : Spans A p)
    (hbrace : A openBrace = false) : Agree J (R []) p p (R []) := by
  refine hp.agree hA (fun _ _ => hR.line) fun c d x xs h hx hAx => ?_
  have hne : x ≠ openBrace := by
    rintro rfl
    rw [hbrace] at hAx
    cases hAx
  have hstep := hR.step h hx (.inr hne)
  rwa [Region.after, if_neg hne] at hstep

/-- What is no mark of a region is no brace. -/
theorem agree_plain (hR : Aligned R) (hp : OfLine p) (hA : Spans Region.isPlain p) :
    Agree J (R []) p p (R []) :=
  agree_onLine hR hp hA (by decide)

/-- Blanks agree. -/
theorem agree_blanks (hR : Aligned R) : Agree J (R []) (blanks : Rule _) blanks (R []) :=
  agree_onLine hR (ofSight_takeWhile fun _ => not_isBreak_of_class rfl rfl)
    (spans_takeWhile fun _ h => h) rfl

/-- Blanks of which there must be some agree. -/
theorem agree_blanks1 (hR : Aligned R) : Agree J (R []) (blanks1 : Rule _) blanks1 (R []) :=
  agree_onLine hR (ofSight_takeWhile1 (fun _ => not_isBreak_of_class rfl rfl) _)
    (spans_takeWhile1 fun _ h => h) rfl

/-- Words of the grammar agree. -/
theorem agree_keyword (hR : Aligned R) {w : String} (h : w.toList.all Region.isPlain) :
    Agree J (R []) (keyword w : Rule _) (keyword w) (R []) :=
  agree_plain hR (ofSight_keyword (fun _ => not_isEnd_of_isWord) (not_isEnd_of_plain h)).line
    (spans_keyword h)

/-- Names agree. -/
theorem agree_identifier (hR : Aligned R) :
    Agree J (R []) (identifier : Rule _) identifier (R []) :=
  agree_plain hR ofSight_identifier.line spans_identifier

/-- A character that is no brace. -/
theorem agree_sign (hR : Aligned R) (hx : Text.isBreak x = false) (hbrace : x ≠ openBrace) :
    Agree J (R []) (char x : Rule Char) (char x) (R []) :=
  agree_onLine hR (ofSight_char hx) (spans_satisfy fun _ h => h) (decide_eq_false (Ne.symm hbrace))

/-- The ends of lines agree. -/
theorem agree_eol (hR : Aligned R) :
    Agree J (R []) (eol : Rule Unit) eol fun _ _ => True := by
  intro c d j k h hJ
  obtain ⟨hc, n, hok, -⟩ | ⟨hc, i, e, hmiss⟩ := eol_spec c j
  · obtain ⟨-, n', hok', -⟩ | ⟨hd, -⟩ := eol_spec d k
    · rw [hok, hok']
      exact .ok trivial hJ
    · exact absurd (hR.line h ▸ hc) hd
  · obtain ⟨hd, -⟩ | ⟨-, i', e', hmiss'⟩ := eol_spec d k
    · exact absurd ((hR.line h).trans hd) hc
    · rw [hmiss, hmiss']
      exact .miss

/-! ## Statements on one line -/

/-- The marks of options agree. -/
theorem agree_promptMark (hR : Aligned R) :
    Agree (Facts.Idle D E) (R []) promptMark promptMark (R []) :=
  (agree_sign hR (by decide) (by decide)).bind fun _ => (agree_blanks hR).discard

/-- Clearing agrees. -/
theorem agree_clear (hR : Aligned R) : Agree (Facts.Idle D E) (R []) clear clear (R []) := by
  refine (agree_keyword hR (by decide)).bind fun _ => ?_
  refine .optionalBind ((agree_blanks1 hR).seqLeft (agree_eol hR).notFollowedBy)
    (fun _ => ?_) .pure
  exact (Agree.orElse (agree_keyword hR (by decide)).map <|
    Agree.orElse (agree_keyword hR (by decide)).map (agree_keyword hR (by decide)).map).map

/-- Ids in brackets agree. -/
theorem agree_bracketed (hR : Aligned R) :
    Agree (Facts.Idle D E) (R []) (bracketed : Rule String) bracketed (R []) :=
  (agree_sign hR (by decide) (by decide)).bind fun _ => (agree_blanks hR).bind fun _ =>
    (agree_identifier hR).bind fun _ => (agree_blanks hR).bind fun _ =>
      (agree_sign hR (by decide) (by decide)).bind fun _ => .pure

/-- Jumps agree. -/
theorem agree_jump (hR : Aligned R) : Agree (Facts.Idle D E) (R []) jump jump (R []) :=
  (agree_keyword hR (by decide)).bind fun _ => (agree_blanks1 hR).bind fun _ =>
    Agree.bindAny .position fun _ _ =>
      ((agree_bracketed hR).orElse (agree_identifier hR)).bind fun _ =>
        Agree.bind (agree_record (fun _ => rfl) fun _ => rfl) fun _ => .pure

/-- Units of time agree. -/
theorem agree_timeUnit (hR : Aligned R) :
    Agree (Facts.Idle D E) (R []) timeUnit timeUnit (R []) := by
  have hword {w : String} (h : w.toList.all Region.isPlain) :=
    agree_keyword (J := Facts.Idle D E) hR h
  exact Agree.orElse ((hword (by decide)).orElse (hword (by decide))).map <|
    Agree.orElse ((hword (by decide)).orElse (hword (by decide))).map
      ((hword (by decide)).orElse (hword (by decide))).map

end

/-- Nested rules that agree, those of lines included. -/
structure Nested.ConcurLines (R : Nat → List Region → Cursor → Cursor → Prop)
    (D E : List (Found String)) (inner inner' : Nested) : Prop where
  /-- Expressions. -/
  concur (m) : inner.Concur (R m) D E inner'
  /-- Rests of lines of text. -/
  textLine (m) : Agree (Facts.Idle D E) (R m []) inner.textLine inner'.textLine (R m [])

section

variable {R : Nat → List Region → Cursor → Cursor → Prop} {L : Nat → Cursor → Cursor → Prop}
  {m : Nat}

/-! ## Lines of text -/

/-- The rest of a line of text may be taken where substitutions may be entered. -/
theorem agree_textLine {R : List Region → Cursor → Cursor → Prop} (hR : Aligned R)
    (hbrace : ∀ {c d xs}, R [] c d → c.line = openBrace :: xs → R [.braces] (c.skip 1) (d.skip 1))
    (h : inner.Concur R D E inner')
    (hnext : Agree (Facts.Idle D E) (R []) inner.textLine inner'.textLine (R [])) :
    Agree (Facts.Idle D E) (R []) (textLine inner) (textLine inner') (R []) := by
  have hrun : Agree (Facts.Idle D E) (R [])
      (takeWhile fun c => !Text.isBreak c && c ≠ openBrace : Rule _)
      (takeWhile fun c => !Text.isBreak c && c ≠ openBrace) (R []) :=
    agree_onLine hR (ofSight_takeWhile fun x hx => by simpa using (Bool.and_eq_true_iff.1 hx).1)
      (spans_takeWhile fun _ hx => hx) rfl
  have hopen : Agree (Facts.Idle D E) (R []) (char openBrace : Rule Char) (char openBrace)
      (R [.braces]) := by
    refine agree_char_of (fun c d xs h hrest => ?_) fun c d ys h hrest => ?_
    · obtain ⟨zs, hline⟩ := Cursor.line_eq_cons hrest (by decide)
      obtain ⟨ys, hys⟩ := Cursor.rest_eq_cons (hR.line h ▸ hline)
      exact ⟨ys, hys, hbrace h hline⟩
    · obtain ⟨zs, hline⟩ := Cursor.line_eq_cons hrest (by decide)
      exact Cursor.rest_eq_cons ((hR.line h).trans hline)
  refine (agree_blanks1 hR).optional.bind fun _ => hrun.bind fun run => ?_
  refine (agree_eol hR).wouldMatch.bind fun atEnd => .ite (fun _ => ?_) fun _ => ?_
  · split <;> exact .pure
  · exact (agree_substitution hR.matched h hopen).bind fun piece => hnext.bind fun _ => .pure

/-- A line of text agrees, at whatever depths it is read. -/
theorem agree_textLine_upTo {R : List Region → Cursor → Cursor → Prop} (hR : Aligned R)
    (hbrace : ∀ {c d xs}, R [] c d → c.line = openBrace :: xs → R [.braces] (c.skip 1) (d.skip 1))
    (n n' : Nat) : Agree (Facts.Idle D E) (R []) (Nested.upTo registry n).textLine
      (Nested.upTo registry n').textLine (R []) := by
  induction n generalizing n' with
  | zero => exact fun _ _ _ _ _ _ => .endlessLeft
  | succ n ih =>
    cases n' with
    | zero => exact fun _ _ _ _ _ _ => .endlessRight
    | succ n' => exact agree_textLine hR hbrace (concur_upTo hR.matched n n') (ih n')

/-- Lines of text, the further ones where `continues` applies. -/
theorem agree_lines {β : Type} (hL : Levelled R L) {item item' : Rule α} {continues : Rule β}
    (hitem : Agree (Facts.Idle D E) (R m []) item item' (R m []))
    (hcont : Agree (Facts.Idle D E) (fun c d => R m [] c d ∧ c.rest ≠ []) continues continues
      fun _ _ => True) (owed : Nat) :
    Agree (Facts.Idle D E) (R m []) (block item continues owed) (block item' continues owed)
      (L m) :=
  .block (hitem.seqLeft (hL.lineEnd.pre fun _ _ => .inl)) (fun _ _ => hL.atEnd)
    (fun _ _ => hL.next) hcont fun _ _ h => h.1

/-- A text agrees if its lines do. -/
theorem agree_text (hL : Levelled R L) (h : inner.ConcurLines R D E inner') :
    Agree (Facts.Idle D E) (R m []) (text inner) (text inner') (L m) :=
  (agree_lines hL (agree_textLine (hL.aligned m) hL.brace (h.concur m) (h.textLine m))
    ((agree_indentation (hL.aligned m) _ _).mono fun _ _ _ => trivial) 1).map

/-- A prompt agrees if its lines do. -/
theorem agree_prompt (hL : Levelled R L) (h : inner.ConcurLines R D E inner') :
    Agree (Facts.Idle D E) (R m []) (prompt inner) (prompt inner') (L m) := by
  have hR := hL.aligned m
  have hline := agree_textLine hR hL.brace (h.concur m) (h.textLine m)
  refine (agree_lines hL ((agree_promptMark hR).seqRight hline) ?_ 1).map
  exact ((agree_indentation hR _ _).seqLeft (agree_promptMark hR).lookAhead).mono
    fun _ _ _ => trivial

/-! ## Statements -/

/-- A rule that takes something may be run with its own indentation. -/
theorem agree_atOwnIndent (hL : Levelled R L) {J : Facts → Facts → Prop} {p q : Rule α}
    (hp : Starved p) (hq : Starved q) (h : ∀ k, Agree J (R k []) p q (Behind R L k)) :
    Agree J (R m []) (atOwnIndent p) (atOwnIndent q) (Behind R L m) := by
  intro c d j k hcd hJ
  by_cases hne : c.rest = []
  · obtain ⟨i, e, j', hc⟩ := hp (c := c.withReference c.here) j hne
    obtain ⟨i', e', k', hd⟩ := hq (c := d.withReference d.here) k (((hL.aligned m).nil hcd).1 hne)
    rw [atOwnIndent, atOwnIndent, hc, hd]
    exact .miss
  · have hcolumn : d.here.column = c.here.column := ((hL.aligned m).column hcd hne).symm
    have hown : R c.here.column [] (c.withReference c.here) (d.withReference d.here) :=
      hL.withReference hcd rfl hcolumn
    obtain ⟨hc, hd⟩ := hL.reference hcd
    refine (h _ hown hJ).through (F := fun r => (replying r).atOwnIndent c j)
      (G := fun r => (replying r).atOwnIndent d k) (fun hQ hJ => .ok (hQ.imp ?_ ?_) hJ) .miss
      (fun _ _ _ => ⟨_, rfl⟩) fun _ _ _ => ⟨_, rfl⟩
    · exact fun h => hL.withReference h hc hd
    · exact fun h => hL.withReference' h hc hd

/-- Dialogue fails at the end of the source. -/
theorem starved_dialog {mark : Char} : Starved (do
    let speaker ← optional identifier
    let _ ← blanks
    let _ ← char mark
    let _ ← spaces
    let said ← text inner
    return (speaker, said) : Rule _) := by
  refine .after (fun c f hrest => ⟨none, ?_⟩) fun _ => .after takeWhile_of_end fun _ =>
    (takes_char mark).starved.bind
  obtain ⟨i, e, f', h⟩ := takes_identifier.starved f hrest
  rw [Parser.optional, h]

/-- Dialogue agrees up to the end of its text. -/
theorem agree_dialog (hL : Levelled R L) (h : inner.ConcurLines R D E inner') {mark : Char}
    (hmark : Text.isBreak mark = false) (hbrace : mark ≠ openBrace) :
    Agree (Facts.Idle D E) (R m []) (dialog inner mark) (dialog inner' mark) (Behind R L m) := by
  refine agree_atOwnIndent hL starved_dialog starved_dialog fun k => ?_
  have hR := hL.aligned k
  refine (agree_identifier hR).optional.bind fun speaker => (agree_blanks hR).bind fun _ => ?_
  refine (agree_sign hR hmark hbrace).bind fun _ => ?_
  have hspaces : Agree (Facts.Idle D E) (R k []) (discard spaces : Rule Unit) (discard spaces)
      (R k []) := fun _ _ _ _ hcd hJ => .ok (hL.gap (.inl hcd)) hJ
  refine Agree.bindAny hspaces fun _ _ => (agree_text hL h).bind fun said => ?_
  exact Agree.pure.mono fun _ _ => .inr

/-- A pause agrees if its amount does. -/
theorem agree_pause (hL : Levelled R L) (h : inner.ConcurLines R D E inner') :
    Agree (Facts.Idle D E) (R m []) (pause registry inner) (pause registry inner') (R m []) := by
  have hR := hL.aligned m
  have hsum : Agree (Facts.Idle D E) (R m []) (sum registry inner) (sum registry inner') (R m []) :=
    ((concurs_sum hR.matched (h.concur m) [.parens] holds_parens).pre fun _ _ => hL.bare.1).mono
      fun _ _ => hL.bare.2
  exact (agree_keyword hR (by decide)).bind fun _ => (agree_blanks1 hR).bind fun _ =>
    hsum.bind fun amount => (agree_blanks hR).bind fun _ => (agree_timeUnit hR).bind fun _ => .pure

/-- Every statement of one line agrees. -/
theorem agree_node (hL : Levelled R L) (h : inner.ConcurLines R D E inner') :
    Agree (Facts.Idle D E) (R m []) (node registry inner) (node registry inner')
      (Behind R L m) := by
  have hR := hL.aligned m
  have hword {w : String} (hw : w.toList.all Region.isPlain) (n : Node) :
      Agree (Facts.Idle D E) (R m []) ((fun _ => n) <$> keyword w : Rule Node)
        ((fun _ => n) <$> keyword w) (Behind R L m) :=
    (agree_keyword hR hw).map.mono fun _ _ => .inl
  exact Agree.orElse (agree_dialog hL h (by decide) (by decide)).map <|
    Agree.orElse (agree_dialog hL h (by decide) (by decide)).map <|
    Agree.orElse ((agree_clear hR).mono fun _ _ => .inl) <|
    Agree.orElse (hword (by decide) .choose) <|
    Agree.orElse ((agree_jump hR).mono fun _ _ => .inl) <|
    Agree.orElse (hword (by decide) .wait) <|
    Agree.orElse ((agree_pause hL h).mono fun _ _ => .inl) (hword (by decide) .leave)

/-- Lines of text and amounts agree at every two depths. -/
theorem concurLines_upTo (hL : Levelled R L) (n n' : Nat) :
    (Nested.upTo registry n).ConcurLines R D E (Nested.upTo registry n') :=
  ⟨fun m => concur_upTo (hL.aligned m).matched n n',
    fun m => agree_textLine_upTo (hL.aligned m) hL.brace n n'⟩

end

end Grammar

end Dialogue
