import Dialogue.Proofs.Grammar.Region
import Dialogue.Proofs.Grammar.Walk
import Dialogue.Proofs.Parser.Follow
import Dialogue.Proofs.Parser.Line

/-!
# Expressions that are read alike
-/

namespace Dialogue

open Dialogue.Parser

/-- The innermost region is one where everything is taken as it stands. -/
def Region.Quoted (s : List Region) : Prop := s.head? = some .quotes ∨ s.head? = some .escape

/-- A relation of places of two sources, with the regions that they lie in, that keeps expressions
    the same. Tokens see the same line, but the white space between them may be other white
    space; between quotes every character is the same. -/
structure Aligned (R : List Region → Cursor → Cursor → Prop) : Prop where
  /-- The same is ahead on the line. -/
  line {s c d} : R s c d → c.line = d.line
  /-- The sources end at once. -/
  nil {s c d} : R s c d → (c.rest = [] ↔ d.rest = [])
  /-- A character of the line may be taken. On the line itself no brace is. -/
  step {s c d x xs} : R s c d → c.line = x :: xs → (s ≠ [] ∨ x ≠ Grammar.openBrace) →
    R (Region.after s x) (c.skip 1) (d.skip 1)
  /-- White space may be taken. -/
  spaces {s c d} : Region.Holds s → R s c d →
    R s (c.skipWhile Text.isSpace) (d.skipWhile Text.isSpace)
  /-- The lines have the same column. -/
  column {s c d} : R s c d → c.rest ≠ [] → c.column = d.column
  /-- So have the lines of the references. -/
  reference {s c d} : R s c d → c.reference.column = d.reference.column
  /-- Between quotes any character may be taken. -/
  quoted {s c d x xs} : Region.Quoted s → R s c d → c.rest = x :: xs →
    ∃ ys, d.rest = x :: ys ∧ R (Region.after s x) (c.skip 1) (d.skip 1)

/-- The characters that no token of a substitution is seen past. -/
def Region.isEnd (x : Char) : Bool := Text.isBreak x || x = Grammar.closeBrace

/-- A plain character does not end the sight. -/
theorem Region.not_isEnd_of_isPlain {x : Char} (h : isPlain x) : isEnd x = false := by
  have hclose : x ≠ Grammar.closeBrace := by
    rintro rfl
    exact absurd h (by decide)
  simp [isEnd, isBreak_of_isPlain h, hclose]

/-- A relation of places of two sources that keeps what stands in substitutions the same. Nothing is
    asked of it behind the brace that closes them, and lines only need to be indented enough in both
    sources or in none. -/
structure Matched (R : List Region → Cursor → Cursor → Prop) : Prop where
  /-- Tokens see the same. -/
  sight {s c d} : Region.Holds s → R s c d → c.sight Region.isEnd = d.sight Region.isEnd
  /-- The sources end at once. -/
  nil {s c d} : s ≠ [] → R s c d → (c.rest = [] ↔ d.rest = [])
  /-- A character of the line may be taken. -/
  step {s c d x xs} : Region.Holds s → R s c d → c.rest = x :: xs → Text.isBreak x = false →
    ∃ ys, d.rest = x :: ys ∧ R (Region.after s x) (c.skip 1) (d.skip 1)
  /-- It may be seen first in the second source. -/
  back {s c d x ys} : Region.Holds s → R s c d → d.rest = x :: ys → Text.isBreak x = false →
    ∃ xs, c.rest = x :: xs
  /-- White space may be taken. -/
  spaces {s c d} : Region.Holds s → R s c d →
    R s (c.skipWhile Text.isSpace) (d.skipWhile Text.isSpace)
  /-- The lines are indented at least like the references at once. -/
  level {s c d} : Region.Holds s → R s c d → c.rest ≠ [] →
    (c.reference.column ≤ c.column ↔ d.reference.column ≤ d.column)
  /-- Between quotes any character may be taken. -/
  quoted {s c d x xs} : Region.Quoted s → R s c d → c.rest = x :: xs →
    ∃ ys, d.rest = x :: ys ∧ R (Region.after s x) (c.skip 1) (d.skip 1)

namespace Region

variable {s : List Region}

/-- Inside of what holds expressions there is something to hold them. -/
theorem ne_nil_of_holds (hs : Holds s) : s ≠ [] := by
  rintro rfl
  simp [Holds] at hs

/-- Between quotes there are quotes. -/
theorem ne_nil_of_quoted (hs : Quoted s) : s ≠ [] := by
  rintro rfl
  simp [Quoted] at hs

end Region

/-- A character that is no line break is on the line. -/
theorem Cursor.line_eq_cons {c : Cursor} {x : Char} {xs : List Char} (h : c.rest = x :: xs)
    (hx : Text.isBreak x = false) : ∃ ys, c.line = x :: ys := by
  refine ⟨xs.takeWhile (!Text.isBreak ·), ?_⟩
  rw [Cursor.line, h, List.takeWhile_cons_of_pos (by simp [hx])]

/-- What is on the line is ahead. -/
theorem Cursor.rest_eq_cons {c : Cursor} {x : Char} {xs : List Char} (h : c.line = x :: xs) :
    ∃ ys, c.rest = x :: ys := by
  obtain ⟨ys, hrest, -⟩ := c.rest_eq_line
  exact ⟨xs ++ ys, by rw [hrest, h, List.cons_append]⟩

/-- The sight of an expression ends where its line does, or before. -/
theorem Cursor.sight_isEnd (c : Cursor) :
    c.sight Region.isEnd = c.line.takeWhile (!Region.isEnd ·) := by
  refine (takeWhile_sight (fun x hx => ?_) c.rest).symm
  rw [Region.isEnd, Bool.not_eq_true', Bool.or_eq_false_iff] at hx
  exact hx.1

/-- Where whole lines are the same, so is what stands in substitutions. -/
theorem Aligned.matched {R : List Region → Cursor → Cursor → Prop} (h : Aligned R) : Matched R where
  sight _ hR := by rw [Cursor.sight_isEnd, Cursor.sight_isEnd, h.line hR]
  nil _ hR := h.nil hR
  step hs hR hrest hx := by
    obtain ⟨zs, hline⟩ := Cursor.line_eq_cons hrest hx
    obtain ⟨ys, hys⟩ := Cursor.rest_eq_cons (h.line hR ▸ hline)
    exact ⟨ys, hys, h.step hR hline (.inl (Region.ne_nil_of_holds hs))⟩
  back _ hR hrest hx := by
    obtain ⟨zs, hline⟩ := Cursor.line_eq_cons hrest hx
    exact Cursor.rest_eq_cons ((h.line hR).trans hline)
  spaces hs hR := h.spaces hs hR
  level _ hR hne := by rw [h.column hR hne, h.reference hR]
  quoted hs hR hrest := h.quoted hs hR hrest

/-- The sources may be exchanged. -/
theorem Aligned.swap {R : List Region → Cursor → Cursor → Prop} (h : Aligned R) :
    Aligned fun s c d => R s d c where
  line hR := (h.line hR).symm
  nil hR := (h.nil hR).symm
  step hR hline hx := h.step hR ((h.line hR).trans hline) hx
  spaces hs hR := h.spaces hs hR
  column hR hne := (h.column hR fun hnil => hne ((h.nil hR).1 hnil)).symm
  reference hR := (h.reference hR).symm
  quoted {s c d x xs} hs hR hrest := by
    cases hd : d.rest with
    | nil =>
      rw [(h.nil hR).1 hd] at hrest
      cases hrest
    | cons y ys =>
      obtain ⟨zs, hc, hnext⟩ := h.quoted hs hR hd
      rw [hrest] at hc
      cases hc
      exact ⟨ys, rfl, hnext⟩

/-- What sees no closing brace sees no more than the line. -/
theorem Parser.OfSight.line {σ α : Type} {p : Parser σ α} (hp : OfSight Region.isEnd p) :
    OfLine p :=
  hp.mono fun x hx => by rw [Region.isEnd, hx, Bool.true_or]

namespace Grammar

variable {α : Type} {registry : Registry} {inner inner' : Nested} {s : List Region}
  {R : List Region → Cursor → Cursor → Prop} {D E : List (Found String)} {x : Char}

/-! ## Tokens in expressions -/

/-- A character of a name does not end the sight. -/
theorem not_isEnd_of_isWord (h : Text.isWord x) : Region.isEnd x = false :=
  Region.not_isEnd_of_isPlain (isPlain_of_isWord h)

section

variable {σ : Type} {J : σ → σ → Prop} {p q : Parser σ α} {Q : Cursor → Cursor → Prop}

/-- What is read in sight, of plain characters only, is read alike in both sources. -/
theorem agree_token (hR : Matched R) (hs : Region.Holds s) (hp : OfSight Region.isEnd p)
    (hplain : Spans Region.isPlain p) : Agree J (R s) p p (R s) := by
  refine hp.agree hplain (fun _ _ => hR.sight hs) fun c d x xs h hx hplain => ?_
  obtain ⟨ys, hrest, -⟩ := c.rest_eq_sight Region.isEnd
  rw [hx, List.cons_append] at hrest
  obtain ⟨-, -, hstep⟩ := hR.step hs h hrest (Region.isBreak_of_isPlain hplain)
  rwa [after_plain hs hplain] at hstep

/-- Taking a character that is next in both sources. -/
theorem agree_char_of {P : Cursor → Cursor → Prop}
    (hl : ∀ c d xs, P c d → c.rest = x :: xs → ∃ ys, d.rest = x :: ys ∧ Q (c.skip 1) (d.skip 1))
    (hr : ∀ c d ys, P c d → d.rest = x :: ys → ∃ xs, c.rest = x :: xs) :
    Agree J P (char x : Parser σ Char) (char x) Q := by
  have hspec (c : Cursor) (j : σ) : (∃ xs, c.rest = x :: xs) ∧ char x c j = .ok x (c.skip 1) j ∨
      (∀ xs, c.rest ≠ x :: xs) ∧ char x c j = .miss c.index [String.singleton x] j := by
    rw [char, satisfy]
    cases hrest : c.rest with
    | nil => exact .inr ⟨fun _ => (List.cons_ne_nil _ _).symm, rfl⟩
    | cons y ys =>
      by_cases hy : y = x
      · exact .inl ⟨⟨ys, by rw [hy]⟩, by simp [hy]⟩
      · exact .inr ⟨fun xs h => hy (List.cons.inj h).1, by simp [hy]⟩
  intro c d j k hP hJ
  obtain ⟨⟨xs, hxs⟩, hc⟩ | ⟨hxs, hc⟩ := hspec c j
  · obtain ⟨ys, hys, hQ⟩ := hl c d xs hP hxs
    obtain ⟨-, hd⟩ | ⟨hne, -⟩ := hspec d k
    · rw [hc, hd]
      exact .ok hQ hJ
    · exact absurd hys (hne ys)
  · obtain ⟨⟨ys, hys⟩, -⟩ | ⟨-, hd⟩ := hspec d k
    · obtain ⟨xs, hrest⟩ := hr c d ys hP hys
      exact absurd hrest (hxs xs)
    · rw [hc, hd]
      exact .miss

/-- A character of the line. -/
theorem agree_mark (hR : Matched R) (hx : Text.isBreak x = false) (hs : Region.Holds s) :
    Agree J (R s) (char x : Parser σ Char) (char x) (R (Region.after s x)) :=
  agree_char_of (fun _ _ _ h hrest => hR.step hs h hrest hx) fun _ _ _ h hrest =>
    hR.back hs h hrest hx

/-- A character between quotes. -/
theorem agree_quoted_char (hR : Matched R) (hs : Region.Quoted s) :
    Agree J (R s) (char x : Parser σ Char) (char x) (R (Region.after s x)) := by
  refine agree_char_of (fun c d xs h hrest => hR.quoted hs h hrest) fun c d ys h hrest => ?_
  cases hc : c.rest with
  | nil =>
    rw [(hR.nil (Region.ne_nil_of_quoted hs) h).1 hc] at hrest
    cases hrest
  | cons y zs =>
    obtain ⟨ys', hd, -⟩ := hR.quoted hs h hc
    rw [hrest] at hd
    cases hd
    exact ⟨zs, rfl⟩

/-- White space may differ. -/
theorem agree_spaces (hR : Matched R) (hs : Region.Holds s) :
    Agree J (R s) (Functor.discard spaces : Parser σ Unit) (Functor.discard spaces) (R s) :=
  fun _ _ _ _ h hJ => .ok (hR.spaces hs h) hJ

/-- Columns that are the same may be compared with the references. -/
theorem agree_indentation_of {P : Cursor → Cursor → Prop}
    (hcolumn : ∀ c d, P c d → c.column = d.column)
    (href : ∀ c d, P c d → c.reference.column = d.reference.column) (accepts : Nat → Nat → Bool)
    (what : Nat → String) :
    Agree J P (indentation accepts what : Parser σ Nat) (indentation accepts what) P := by
  intro c d j k h hJ
  simp only [indentation, hcolumn c d h, href c d h]
  split
  · exact .ok h hJ
  · exact .miss

/-- The column of the line may be compared with the reference, unless nothing is ahead. -/
theorem agree_indentation (hR : Aligned R) (accepts : Nat → Nat → Bool) (what : Nat → String) :
    Agree J (fun c d => R s c d ∧ c.rest ≠ []) (indentation accepts what : Parser σ Nat)
      (indentation accepts what) (R s) :=
  (agree_indentation_of (fun _ _ h => hR.column h.1 h.2) (fun _ _ h => hR.reference h.1) _ _).mono
    fun _ _ h => h.1

/-- What stands indented enough in one source does so in the other one. -/
theorem agree_sameOrIndented (hR : Matched R) (hs : Region.Holds s) (h : Agree J (R s) p q Q) :
    Agree J (fun c d => R s c d ∧ c.rest ≠ []) (sameOrIndented >>= fun _ => p)
      (sameOrIndented >>= fun _ => q) Q := by
  intro c d j k hcd hJ
  have hlevel := hR.level hs hcd.1 hcd.2
  simp only [bind_apply, sameOrIndented, indentation, decide_eq_true_eq]
  by_cases hc : c.reference.column ≤ c.column
  · rw [if_pos hc, if_pos (hlevel.1 hc)]
    exact h hcd.1 hJ
  · rw [if_neg hc, if_neg fun hd => hc (hlevel.2 hd)]
    exact .miss

/-- At the end of the source a token misses, whatever the column. -/
theorem agree_lexeme (hR : Matched R) (hs : Region.Holds s) (hp : Starved p) (hq : Starved q)
    (h : Agree J (R s) p q Q) : Agree J (R s) (lexeme p) (lexeme q) Q := by
  refine .bindAny (agree_spaces hR hs) fun _ _ c d j k hcd hJ => ?_
  by_cases hne : c.rest = []
  · have hmiss {p : Parser σ α} (hp : Starved p) {c : Cursor} (j : σ) (hrest : c.rest = []) :
        ∃ i e j', (sameOrIndented >>= fun _ => p) c j = .miss i e j' := by
      rw [bind_apply, sameOrIndented]
      simp only [indentation]
      split
      · exact hp j hrest
      · exact ⟨_, _, _, rfl⟩
    obtain ⟨_, _, _, hc⟩ := hmiss hp j hne
    obtain ⟨_, _, _, hd⟩ := hmiss hq k ((hR.nil (Region.ne_nil_of_holds hs) hcd).1 hne)
    change Reply.Alike J Q ((sameOrIndented >>= fun _ => p) c j)
      ((sameOrIndented >>= fun _ => q) d k)
    rw [hc, hd]
    exact .miss
  · exact agree_sameOrIndented hR hs h ⟨hcd, hne⟩ hJ

/-- A character is read in sight if it does not end it. -/
theorem ofSight_char {stop : Char → Bool} (hx : stop x = false) :
    OfSight stop (char x : Parser σ Char) :=
  ofSight_satisfy (fun _ hy => by rwa [of_decide_eq_true hy]) _

/-- A name is read in sight. -/
theorem ofSight_identifier : OfSight Region.isEnd (identifier : Parser σ String) :=
  (ofSight_takeWhile1 (fun _ => not_isEnd_of_isWord) _).filter.filter.map

/-- A name that is no word of the grammar is read in sight. -/
theorem ofSight_unreserved : OfSight Region.isEnd (unreserved : Parser σ String) :=
  ofSight_identifier.filter

/-- The name of a variable is read in sight, with the look at what is behind it. -/
theorem ofSight_variableName : OfSight Region.isEnd (variableName : Parser σ String) :=
  ofSight_unreserved.seqLeft (ofSight_char (by decide)).notFollowedBy

/-- The name of a variable is of plain characters. -/
theorem spans_variableName : Spans Region.isPlain (variableName : Parser σ String) := by
  intro c j a c' j' h
  obtain ⟨_, c₁, j₁, hname, h⟩ := of_bind_eq_ok h
  obtain ⟨_, c₂, j₂, hnot, h⟩ := of_bind_eq_ok h
  cases h
  obtain ⟨rfl, rfl, -⟩ := of_notFollowedBy_eq_ok hnot
  exact spans_unreserved hname

end

/-- A plain word has no character that ends the sight. -/
theorem not_isEnd_of_plain {w : List Char} (h : w.all Region.isPlain) :
    w.all (!Region.isEnd ·) := by
  refine List.all_eq_true.2 fun x hx => ?_
  rw [Region.not_isEnd_of_isPlain (List.all_eq_true.1 h x hx)]
  rfl

/-- Plain spellings are read in sight. -/
theorem ofSight_spelled : (spellings : List String) →
    spellings.all (·.toList.all Region.isPlain) → OfSight Region.isEnd (spelled spellings)
  | [], _ => .expected _
  | [_], h => ofSight_symbol (fun _ => not_isEnd_of_isWord)
      (not_isEnd_of_plain (Bool.and_eq_true_iff.1 h).1)
  | _ :: s :: rest, h =>
    (ofSight_symbol (fun _ => not_isEnd_of_isWord)
      (not_isEnd_of_plain (Bool.and_eq_true_iff.1 h).1)).orElse
        (ofSight_spelled (s :: rest) (Bool.and_eq_true_iff.1 h).2)

/-! ## Expressions -/

/-- In an expression two rules agree, and stop in the regions where they started. -/
def Concurs (R : List Region → Cursor → Cursor → Prop) (D E : List (Found String))
    (p q : Rule α) : Prop :=
  ∀ s, Region.Holds s → Agree (Facts.Idle D E) (R s) p q (R s)

/-- Nested rules that agree in expressions. -/
structure Nested.Concur (R : List Region → Cursor → Cursor → Prop) (D E : List (Found String))
    (inner inner' : Nested) : Prop where
  /-- Sums. -/
  sum : Concurs R D E inner.sum inner'.sum
  /-- Disjunctions. -/
  disjunction : Concurs R D E inner.disjunction inner'.disjunction
  /-- Truth values that may be negated. -/
  unary : Concurs R D E inner.unary inner'.unary
  /-- Texts as operands. -/
  operand : Concurs R D E inner.operand inner'.operand
  /-- What stands between quotes. -/
  quoted (s : List Region) : Agree (Facts.Idle D E) (R (.quotes :: s)) inner.quoted inner'.quoted
    (R (.quotes :: s))

/-- Operands are read alike, whatever their category is. -/
theorem Nested.Concur.expr (h : inner.Concur R D E inner') :
    (k : Category) → Concurs R D E (inner.expr k) (inner'.expr k)
  | .number => h.sum
  | .boolean => h.disjunction
  | .text => h.operand

namespace Concurs

variable {p q p' q' : Rule α}

/-- Alternatives are read alike if each of them is. -/
theorem orElse (hp : Concurs R D E p q) (hp' : Concurs R D E p' q') :
    Concurs R D E (p <|> p') (q <|> q') :=
  fun s hs => (hp s hs).orElse (hp' s hs)

/-- Values that are changed alike are read alike. -/
theorem map {β : Type} {f : α → β} (hp : Concurs R D E p q) : Concurs R D E (f <$> p) (f <$> q) :=
  fun s hs => (hp s hs).map

/-- Chains are read alike if their operands and operators are. -/
theorem chainLeft {operator operator' : Rule (α → α → α)} (hp : Concurs R D E p q)
    (ho : Concurs R D E operator operator') :
    Concurs R D E (Parser.chainLeft p operator) (Parser.chainLeft q operator') :=
  fun s hs => (hp s hs).chainLeft (ho s hs)

/-- Tokens are read alike, whatever white space is before them. -/
theorem lexeme (hR : Matched R) (hp : Starved p) (hq : Starved q) (h : Concurs R D E p q) :
    Concurs R D E (Grammar.lexeme p) (Grammar.lexeme q) :=
  fun s hs => agree_lexeme hR hs hp hq (h s hs)

/-- What is read in sight, of plain characters only, is read alike wherever it stands. -/
theorem of_sight (hR : Matched R) (hp : OfSight Region.isEnd p) (hplain : Spans Region.isPlain p) :
    Concurs R D E p p := fun _ hs => agree_token hR hs hp hplain

end Concurs

/-- A plain word is read alike. -/
theorem concurs_keyword (hR : Matched R) {w : String} (h : w.toList.all Region.isPlain) :
    Concurs R D E (keyword w) (keyword w) :=
  .of_sight hR (ofSight_keyword (fun _ => not_isEnd_of_isWord) (not_isEnd_of_plain h))
    (spans_keyword h)

/-- A plain spelling is read alike. -/
theorem concurs_tag (hR : Matched R) {w : String} (h : w.toList.all Region.isPlain) :
    Concurs R D E (tag w) (tag w) :=
  .of_sight hR (ofSight_tag (not_isEnd_of_plain h)) (spans_tag h)

/-- The name of a variable is read alike. -/
theorem concurs_variableName (hR : Matched R) :
    Concurs R D E (variableName : Rule String) variableName :=
  .of_sight hR ofSight_variableName spans_variableName

/-- An operator with plain spellings is read alike. -/
theorem concurs_operator (hR : Matched R) (a : α) {spellings : List String}
    (hne : ∀ s ∈ spellings, s ≠ "") (h : spellings.all (·.toList.all Region.isPlain)) :
    Concurs R D E (operator a spellings) (operator a spellings) := by
  have hstarved := (takes_spelled spellings hne).starved
  have hspelled : Concurs R D E (spelled spellings) (spelled spellings) :=
    .of_sight hR (ofSight_spelled spellings h) (spans_spelled spellings h)
  exact fun s hs => (hspelled.lexeme hR hstarved hstarved s hs).bind fun _ => .pure

/-- An arithmetic sign is read alike. -/
theorem concurs_arithmeticSign (hR : Matched R) :
    Concurs R D E arithmeticSign arithmeticSign :=
  concurs_operator hR () (by decide) (by decide)

/-- A comparison sign is read alike, in each of its spellings. -/
theorem concurs_compareSign (hR : Matched R) : Concurs R D E compareSign compareSign := by
  have hblanks : Concurs R D E blanks1 blanks1 := by
    refine .of_sight hR (ofSight_takeWhile1 (fun x hx => ?_) _) ?_
    · exact Region.not_isEnd_of_isPlain (Region.isPlain_of_class (by decide) hx)
    · exact spans_takeWhile1 fun x => Region.isPlain_of_class (by decide)
  have hisNot : Concurs R D E (do
      let _ ← keyword "is"
      let _ ← blanks1
      let _ ← keyword "not"
      return CompareOp.isNot) (do
      let _ ← keyword "is"
      let _ ← blanks1
      let _ ← keyword "not"
      return CompareOp.isNot) := fun s hs =>
    (concurs_keyword hR (by decide) s hs).bind fun _ => (hblanks s hs).bind fun _ =>
      (concurs_keyword hR (by decide) s hs).bind fun _ => .pure
  have hstarved {w : String} (h : w ≠ "") : Starved (keyword w : Rule String) :=
    (takes_keyword h).starved
  have hstarved' {w : String} (h : w ≠ "") : Starved (tag w : Rule String) := (takes_tag h).starved
  refine .lexeme hR ?_ ?_ <| hisNot.orElse <| Concurs.orElse (concurs_tag hR (by decide)).map <|
    Concurs.orElse (concurs_keyword hR (by decide)).map (concurs_tag hR (by decide)).map
  all_goals exact Starved.orElse (hstarved (by decide)).bind <|
    Starved.orElse (hstarved' (by decide)).map <|
      Starved.orElse (hstarved (by decide)).map (hstarved' (by decide)).map

/-- Behind the opening parenthesis. -/
theorem agree_open (hR : Matched R) (hs : Region.Holds s) : Agree (Facts.Idle D E) (R s)
    (char '(' : Rule Char) (char '(') (R (.parens :: s)) :=
  after_open hs ▸ agree_mark hR (by decide) hs

/-- A mark that closes or divides what is in parentheses. -/
theorem agree_lexeme_char (hR : Matched R) (hx : Text.isBreak x = false) (hs : Region.Holds s) :
    Agree (Facts.Idle D E) (R s) (lexeme (char x) : Rule Char) (lexeme (char x))
      (R (Region.after s x)) :=
  agree_lexeme hR hs (takes_char x).starved (takes_char x).starved
    (agree_mark hR hx hs)

/-- What stands in parentheses may be taken where they may be opened. -/
theorem agree_parenthesized (hR : Matched R) {P : Cursor → Cursor → Prop} {p q : Rule α}
    (h : Concurs R D E p q) (hopen : Agree (Facts.Idle D E) P (lexeme (char '(') : Rule Char)
      (lexeme (char '(')) (R (.parens :: s))) :
    Agree (Facts.Idle D E) P (parenthesized p) (parenthesized q) (R s) :=
  hopen.bind fun _ => (h _ holds_parens).bind fun _ =>
    (agree_lexeme_char hR (x := ')') (by decide) holds_parens).bind fun _ => .pure

/-- Parentheses are read alike if what they enclose is. -/
theorem concurs_parenthesized (hR : Matched R) {p q : Rule α} (h : Concurs R D E p q) :
    Concurs R D E (parenthesized p) (parenthesized q) := by
  intro s hs
  have hopen := agree_lexeme_char (D := D) (E := E) hR (x := '(') (by decide) hs
  rw [after_open hs] at hopen
  exact agree_parenthesized hR h hopen

/-- What is noted is no claim of an id. -/
theorem agree_record {P : Cursor → Cursor → Prop} {f g : Facts → Facts}
    (hf : ∀ j, (f j).declared = j.declared) (hg : ∀ j, (g j).declared = j.declared) :
    Agree (Facts.Idle D E) P (record f) (record g) P :=
  .record fun _ _ h => ⟨(hf _).trans h.1, (hg _).trans h.2⟩

/-- There is no variable where the source ends. -/
theorem starved_variableOf {k : Category} : Starved (variableOf k) := takes_variableOf.starved

/-- A variable is read alike, and recorded in both sources. -/
theorem concurs_variableOf (hR : Matched R) {k : Category} :
    Concurs R D E (variableOf k) (variableOf k) :=
  fun s hs => Agree.bindAny .position fun _ _ => (concurs_variableName hR s hs).bind fun _ =>
    Agree.bind (agree_record (fun _ => rfl) fun _ => rfl) fun _ => .pure

/-- Arguments are read alike in parentheses, if their failures are. -/
theorem agree_arguments (hR : Matched R) (h : inner.Concur R D E inner') {wrong wrong' : Rule Unit}
    (hwrong : Agree (Facts.Idle D E) (R (.parens :: s)) wrong wrong' (R (.parens :: s)))
    (first : Bool) (ks : List Category) :
    Agree (Facts.Idle D E) (R (.parens :: s)) (arguments inner wrong first ks)
      (arguments inner' wrong' first ks) (R (.parens :: s)) := by
  induction ks generalizing first with
  | nil => exact .pure
  | cons k ks ih =>
    rw [arguments, arguments]
    dsimp only
    have hargs : Agree (Facts.Idle D E) (R (.parens :: s)) (do
        let e ← inner.expr k
        let rest ← arguments inner wrong false ks
        return Args.cons e rest) (do
        let e ← inner'.expr k
        let rest ← arguments inner' wrong' false ks
        return Args.cons e rest) (R (.parens :: s)) :=
      (h.expr k _ holds_parens).bind fun _ => (ih false).bind fun _ => .pure
    have hmark {x : Char} (hx : Text.isBreak x = false) :=
      agree_lexeme_char (D := D) (E := E) (s := .parens :: s) hR hx holds_parens
    refine (hmark (x := ')') (by decide)).wouldMatch.bind fun _ => .stopIf hwrong ?_
    split
    · exact hargs
    · exact (hmark (x := ',') (by decide)).optional.bind fun _ => .stopIf hwrong hargs

/-- There is no call where the source ends. -/
theorem starved_call {k : Category} : Starved (call registry inner k) :=
  .after position_of_end fun _ => takes_unreserved.starved.bind

/-- What is behind the name of a call is read alike up to the closing parenthesis. -/
theorem agree_called (hR : Matched R) (h : inner.Concur R D E inner') {k : Category}
    (index index' : Nat) (name : String) :
    Agree (Facts.Idle D E) (R (.parens :: s)) (called registry inner k index name)
      (called registry inner' k index' name) (R s) := by
  rw [called, called]
  cases registry name with
  | none => exact .fatalAt
  | some signature =>
    dsimp only
    refine .ite (fun _ => .missAt) fun _ => ?_
    refine (agree_arguments hR h .fatalAt true signature.params).bind fun args => ?_
    have hclose := agree_lexeme_char (D := D) (E := E) (s := .parens :: s) hR (x := ')')
      (by decide) holds_parens
    refine .optionalBind hclose (fun _ => .pure) (.ite (fun _ => ?_) fun hn => absurd rfl hn)
    exact Agree.fatalAt.bind fun _ => .pure

/-- A call may be taken where its name may, and where the parentheses behind it may be opened. -/
theorem agree_call (hR : Matched R) (h : inner.Concur R D E inner') {k : Category}
    {P N : Cursor → Cursor → Prop}
    (hname : Agree (Facts.Idle D E) P (unreserved : Rule String) unreserved N)
    (hopen : Agree (Facts.Idle D E) N (char '(' : Rule Char) (char '(') (R (.parens :: s))) :
    Agree (Facts.Idle D E) P (call registry inner k) (call registry inner' k) (R s) := by
  rw [call_eq, call_eq]
  exact Agree.bindAny .position fun i i' => hname.bind fun name => hopen.bind fun _ =>
    agree_called hR h i i' name

/-- A call is read alike, with its name and its arguments. -/
theorem concurs_call (hR : Matched R) (h : inner.Concur R D E inner') {k : Category} :
    Concurs R D E (call registry inner k) (call registry inner' k) := fun _ hs =>
  agree_call hR h (agree_token hR hs ofSight_unreserved spans_unreserved) (agree_open hR hs)

/-- A number is read alike. -/
theorem concurs_number (hR : Matched R) : Concurs R D E number number :=
  .of_sight hR (ofSight_number fun _ h => Region.not_isEnd_of_isPlain (isPlain_of_isNumeric h))
    (spans_number fun _ => isPlain_of_isNumeric)

/-- A factor is read alike in each of its forms. -/
theorem concurs_factor (hR : Matched R) (h : inner.Concur R D E inner') :
    Concurs R D E (factor registry inner) (factor registry inner') :=
  (concurs_parenthesized hR h.sum).orElse <|
    ((concurs_number hR).lexeme hR takes_number.starved takes_number.starved).map.orElse <|
      ((concurs_call hR h).lexeme hR starved_call starved_call).orElse
        ((concurs_variableOf hR).lexeme hR starved_variableOf starved_variableOf)

/-- Products are read alike. -/
theorem concurs_product (hR : Matched R) (h : inner.Concur R D E inner') :
    Concurs R D E (product registry inner) (product registry inner') :=
  (concurs_factor hR h).chainLeft <|
    (concurs_operator hR _ (by decide) (by decide)).orElse
      (concurs_operator hR _ (by decide) (by decide))

/-- Sums are read alike. -/
theorem concurs_sum (hR : Matched R) (h : inner.Concur R D E inner') :
    Concurs R D E (sum registry inner) (sum registry inner') :=
  (concurs_product hR h).chainLeft <|
    (concurs_operator hR _ (by decide) (by decide)).orElse
      (concurs_operator hR _ (by decide) (by decide))

/-! ## Quotes and substitutions -/

/-- The closing brace. -/
theorem agree_closeBrace (hR : Matched R) : Agree (Facts.Idle D E) (R (.braces :: s))
    (do let _ ← spaces; discard (char closeBrace) : Rule Unit)
    (do let _ ← spaces; discard (char closeBrace)) (R s) :=
  .bindAny (agree_spaces hR holds_braces) fun _ _ =>
    (agree_mark hR (x := closeBrace) (by decide) holds_braces).discard

/-- A substitution may be taken where an opening brace may. -/
theorem agree_substitution (hR : Matched R) (h : inner.Concur R D E inner')
    {P : Cursor → Cursor → Prop}
    (hopen : Agree (Facts.Idle D E) P (char openBrace : Rule Char) (char openBrace)
      (R (.braces :: s))) :
    Agree (Facts.Idle D E) P (substitution inner) (substitution inner') (R s) := by
  have hexpr {k : Category} {p q : Rule (Expr k)} (hp : Concurs R D E p q) :
      Agree (Facts.Idle D E) (R (.braces :: s))
        (p <* (do let _ ← spaces; discard (char closeBrace) : Rule Unit))
        (q <* (do let _ ← spaces; discard (char closeBrace) : Rule Unit)) (R s) :=
    (hp _ holds_braces).seqLeft (agree_closeBrace hR)
  refine hopen.bind fun _ => .orElse ?_ <| .orElse (hexpr h.sum).map <|
    .orElse (hexpr h.disjunction).map (hexpr h.operand)
  refine Agree.bindAny (agree_spaces hR holds_braces) fun _ _ => ?_
  refine (concurs_variableName hR _ holds_braces).bind fun name => ?_
  exact (agree_closeBrace hR).bind fun _ => .pure

/-- Quotes hold text. -/
theorem quoted_quotes : Region.Quoted (.quotes :: s) := .inl rfl

/-- Behind a backslash the next character is taken as it stands. -/
theorem quoted_escape : Region.Quoted (.escape :: s) := .inr rfl

/-- An escape is read alike between quotes. -/
theorem agree_escape (hR : Matched R) : Agree (Facts.Idle D E) (R (.quotes :: s)) escape escape
    (R (.quotes :: s)) := by
  have hafter {x : Char} : Agree (Facts.Idle D E) (R (.escape :: .quotes :: s))
      (char x : Rule Char) (char x) (R (.quotes :: s)) := agree_quoted_char hR quoted_escape
  exact (agree_quoted_char hR (x := '\\') quoted_quotes).bind fun _ => hafter.map.orElse <|
    hafter.map.orElse <| hafter.orElse <| hafter.orElse hafter

/-- Plain characters between quotes are the same in both sources. -/
theorem agree_run (hR : Matched R) : Agree (Facts.Idle D E) (R (.quotes :: s))
    (takeWhile (!endsRun ·) : Rule _) (takeWhile (!endsRun ·)) (R (.quotes :: s)) := by
  -- By induction on what is ahead: a character of the run neither closes the quotes nor opens
  -- another region in them.
  have hrun (xs : List Char) : ∀ c d, R (.quotes :: s) c d → c.rest = xs →
      d.rest.takeWhile (!endsRun ·) = xs.takeWhile (!endsRun ·) ∧
        R (.quotes :: s) (c.skip (xs.takeWhile (!endsRun ·)).length)
          (d.skip (xs.takeWhile (!endsRun ·)).length) := by
    induction xs with
    | nil =>
      intro c d h hrest
      rw [(hR.nil (List.cons_ne_nil _ _) h).1 hrest, List.takeWhile_nil, List.length_nil,
        Cursor.skip_zero, Cursor.skip_zero]
      exact ⟨rfl, h⟩
    | cons x xs ih =>
      intro c d h hrest
      obtain ⟨ys, hd, hnext⟩ := hR.quoted quoted_quotes h hrest
      rw [hd]
      cases hx : endsRun x with
      | true =>
        rw [List.takeWhile_cons_of_neg (by simp [hx]), List.takeWhile_cons_of_neg (by simp [hx]),
          List.length_nil, Cursor.skip_zero, Cursor.skip_zero]
        exact ⟨rfl, h⟩
      | false =>
        have hafter : Region.after (.quotes :: s) x = .quotes :: s := by
          simp only [endsRun, Bool.or_eq_false_iff, decide_eq_false_iff_not] at hx
          simp [Region.after, hx]
        rw [hafter] at hnext
        obtain ⟨hsame, hskip⟩ := ih _ _ hnext (Cursor.rest_skip_one hrest)
        rw [Cursor.rest_skip_one hd] at hsame
        rw [Cursor.skip_skip, Cursor.skip_skip, Nat.add_comm] at hskip
        rw [List.takeWhile_cons_of_pos (by simp [hx]), List.takeWhile_cons_of_pos (by simp [hx]),
          hsame]
        exact ⟨rfl, hskip⟩
  intro c d j k h hJ
  obtain ⟨hsame, hskip⟩ := hrun c.rest c d h rfl
  simp only [takeWhile, hsame]
  exact .ok hskip hJ

/-- In both sources a run between quotes has an end, or in neither. -/
theorem agree_endsRun (hR : Matched R) {what : String} : Agree (Facts.Idle D E) (R (.quotes :: s))
    (satisfy endsRun what : Rule _) (satisfy endsRun what) fun _ _ => True := by
  intro c d j k h hJ
  rw [satisfy, satisfy]
  cases hrest : c.rest with
  | nil =>
    rw [(hR.nil (List.cons_ne_nil _ _) h).1 hrest]
    exact .miss
  | cons x xs =>
    obtain ⟨ys, hd, -⟩ := hR.quoted quoted_quotes h hrest
    rw [hd]
    dsimp only
    split
    · exact .ok trivial hJ
    · exact .miss

/-- What stands between quotes is read alike. -/
theorem agree_quoted (hR : Matched R) (h : inner.Concur R D E inner') :
    Agree (Facts.Idle D E) (R (.quotes :: s)) (quoted inner) (quoted inner')
      (R (.quotes :: s)) := by
  refine (agree_run hR).bind fun run => (agree_endsRun hR).lookAhead.bind fun _ => ?_
  refine .optionalBind (agree_escape hR) (fun c => ?_) ?_
  · exact (h.quoted s).bind fun _ => .pure
  · refine .optionalBind (agree_substitution hR h (agree_quoted_char hR quoted_quotes))
      (fun piece => ?_) .pure
    exact (h.quoted s).bind fun _ => .pure

/-- A text in quotes is read alike. -/
theorem concurs_quote (hR : Matched R) (h : inner.Concur R D E inner') :
    Concurs R D E (quote inner) (quote inner') := by
  intro s hs
  have hopen : Agree (Facts.Idle D E) (R s) (char '"' : Rule Char) (char '"')
      (R (.quotes :: s)) :=
    after_quote hs ▸ agree_mark hR (by decide) hs
  exact hopen.bind fun _ => (agree_quoted hR h).bind fun _ =>
    (agree_quoted_char hR (x := '"') quoted_quotes).bind fun _ => .pure

/-- There is no text in quotes where the source ends. -/
theorem starved_quote : Starved (quote inner) := (takes_char _).starved.bind

/-- A text as an operand is read alike in each of its forms. -/
theorem concurs_operand (hR : Matched R) (h : inner.Concur R D E inner') :
    Concurs R D E (operand registry inner) (operand registry inner') :=
  ((concurs_quote hR h).lexeme hR starved_quote starved_quote).orElse <|
    ((concurs_call hR h).lexeme hR starved_call starved_call).orElse
      ((concurs_variableOf hR).lexeme hR starved_variableOf starved_variableOf)

/-! ## Logic -/

/-- A truth value alone is read alike in each of its forms. -/
theorem concurs_boolean (hR : Matched R) (h : inner.Concur R D E inner') :
    Concurs R D E (boolean registry inner) (boolean registry inner') := by
  have hword {w : String} (hne : w ≠ "") (hw : w.toList.all Region.isPlain) :
      Concurs R D E (lexeme (keyword w)) (lexeme (keyword w)) :=
    (concurs_keyword hR hw).lexeme hR (takes_keyword hne).starved (takes_keyword hne).starved
  exact (concurs_parenthesized hR h.disjunction).orElse <|
    (hword (by decide) (by decide)).map.orElse <|
      (hword (by decide) (by decide)).map.orElse <|
        ((concurs_call hR h).lexeme hR starved_call starved_call).orElse
          ((concurs_variableOf hR).lexeme hR starved_variableOf starved_variableOf)

/-- Two variables compared are read alike, and linked in both sources. -/
theorem concurs_variableComparison (hR : Matched R) :
    Concurs R D E variableComparison variableComparison := by
  have hstarved : Starved (variableName : Rule String) := takes_variableName.starved
  have hrest : Concurs R D E (do
      let index ← position
      let l ← variableName
      let op ← compareSign
      let r ← lexeme variableName
      notFollowedBy arithmeticSign "end of comparison"
      record (·.linkVariables index l r)
      return Expr.compareVariables op l r) (do
      let index ← position
      let l ← variableName
      let op ← compareSign
      let r ← lexeme variableName
      notFollowedBy arithmeticSign "end of comparison"
      record (·.linkVariables index l r)
      return Expr.compareVariables op l r) := fun s hs =>
    Agree.bindAny .position fun _ _ => (concurs_variableName hR s hs).bind fun _ =>
      (concurs_compareSign hR s hs).bind fun _ =>
        ((concurs_variableName hR).lexeme hR hstarved hstarved s hs).bind fun _ =>
          (concurs_arithmeticSign hR s hs).notFollowedBy.bind fun _ =>
            Agree.bind (agree_record (fun _ => rfl) fun _ => rfl) fun _ => .pure
  exact hrest.lexeme hR (.after position_of_end fun _ => hstarved.bind)
    (.after position_of_end fun _ => hstarved.bind)

/-- Two operands compared are read alike if the operands are. -/
theorem concurs_comparisonOf (hR : Matched R) {k : Category} {p q : Rule (Expr k)}
    (h : Concurs R D E p q) : Concurs R D E (comparisonOf p) (comparisonOf q) :=
  fun s hs => (h s hs).bind fun _ => (concurs_compareSign hR s hs).bind fun _ =>
    (h s hs).bind fun _ => .pure

/-- A reading of truth values is given up in both sources or in neither. -/
theorem concurs_booleanReading (hR : Matched R) (h : inner.Concur R D E inner') :
    Concurs R D E (booleanReading registry inner) (booleanReading registry inner') := by
  intro s hs
  have hboolean : Agree (Facts.Idle D E) (R s) (boolean registry inner) (boolean registry inner')
      (R s) := concurs_boolean hR h s hs
  have hunless (e : Expr .boolean) : Agree (Facts.Idle D E) (R s)
      (do return if ← wouldMatch arithmeticSign then none else some e : Rule _)
      (do return if ← wouldMatch arithmeticSign then none else some e) (R s) :=
    (concurs_arithmeticSign hR s hs).wouldMatch.bind fun _ => .pure
  refine .optionalBind hboolean (fun l => ?_) .pure
  refine .optionalBind (concurs_compareSign hR s hs) (fun op => ?_) (hunless l)
  exact .optionalBind hboolean (fun r => hunless _) .pure

/-- A relation is read alike, whichever reading answers. -/
theorem concurs_relation (hR : Matched R) (h : inner.Concur R D E inner') :
    Concurs R D E (relation registry inner) (relation registry inner') := by
  intro s hs
  rw [relation, relation, insteadOf_eq, insteadOf_eq, insteadOf_eq, insteadOf_eq]
  refine .reread (concurs_variableComparison hR s hs).optional <|
    .reread (concurs_booleanReading hR h s hs) ?_
  exact ((concurs_comparisonOf hR (concurs_sum hR h)).orElse
    (concurs_comparisonOf hR (concurs_operand hR h))) s hs

/-- A negation is read alike. -/
theorem concurs_negation (hR : Matched R) (h : inner.Concur R D E inner') :
    Concurs R D E (negation inner) (negation inner') := by
  intro s hs
  have hbang : Concurs R D E (tag "!" <* notFollowedBy (char '=') "'!'" : Rule String)
      (tag "!" <* notFollowedBy (char '=') "'!'") := fun s hs =>
    (concurs_tag hR (by decide) s hs).seqLeft
      (agree_mark hR (by decide) hs).notFollowedBy
  have hword : Starved (keyword "not" : Rule String) := (takes_keyword (by decide)).starved
  have hstarved : Starved (keyword "not" <|>
      tag "!" <* notFollowedBy (char '=') "'!'" : Rule String) :=
    hword.orElse (takes_tag (by decide)).starved.bind
  have hnot := ((concurs_keyword hR (by decide)).orElse hbang).lexeme hR hstarved hstarved
  exact (hnot s hs).bind fun _ => (h.unary s hs).bind fun _ => .pure

/-- What may be negated is read alike. -/
theorem concurs_unary (hR : Matched R) (h : inner.Concur R D E inner') :
    Concurs R D E (unary registry inner) (unary registry inner') :=
  (concurs_negation hR h).orElse (concurs_relation hR h)

/-- Conjunctions are read alike. -/
theorem concurs_conjunction (hR : Matched R) (h : inner.Concur R D E inner') :
    Concurs R D E (conjunction registry inner) (conjunction registry inner') :=
  (concurs_unary hR h).chainLeft (concurs_operator hR _ (by decide) (by decide))

/-- Exclusive disjunctions are read alike. -/
theorem concurs_exclusive (hR : Matched R) (h : inner.Concur R D E inner') :
    Concurs R D E (exclusive registry inner) (exclusive registry inner') :=
  (concurs_conjunction hR h).chainLeft (concurs_operator hR _ (by decide) (by decide))

/-- Disjunctions are read alike. -/
theorem concurs_disjunction (hR : Matched R) (h : inner.Concur R D E inner') :
    Concurs R D E (disjunction registry inner) (disjunction registry inner') :=
  (concurs_exclusive hR h).chainLeft (concurs_operator hR _ (by decide) (by decide))

/-! ## Rules nested to any depths -/

/-- Nested rules read alike, however deep each source lets them be nested. -/
theorem concur_upTo (hR : Matched R) (n m : Nat) :
    (Nested.upTo registry n).Concur R D E (Nested.upTo registry m) := by
  -- Where no rule may be nested any more the answer is `endless`, whatever the other one answers.
  induction n generalizing m with
  | zero =>
    exact {
      sum := fun _ _ _ _ _ _ _ _ => .endlessLeft
      disjunction := fun _ _ _ _ _ _ _ _ => .endlessLeft
      unary := fun _ _ _ _ _ _ _ _ => .endlessLeft
      operand := fun _ _ _ _ _ _ _ _ => .endlessLeft
      quoted := fun _ _ _ _ _ _ _ => .endlessLeft }
  | succ n ih =>
    cases m with
    | zero =>
      exact {
        sum := fun _ _ _ _ _ _ _ _ => .endlessRight
        disjunction := fun _ _ _ _ _ _ _ _ => .endlessRight
        unary := fun _ _ _ _ _ _ _ _ => .endlessRight
        operand := fun _ _ _ _ _ _ _ _ => .endlessRight
        quoted := fun _ _ _ _ _ _ _ => .endlessRight }
    | succ m =>
      exact {
        sum := concurs_sum hR (ih m)
        disjunction := concurs_disjunction hR (ih m)
        unary := concurs_unary hR (ih m)
        operand := concurs_operand hR (ih m)
        quoted := fun _ => agree_quoted hR (ih m) }

end Grammar

end Dialogue
