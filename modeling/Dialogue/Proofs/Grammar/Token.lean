import Dialogue.Proofs.Cursor.Layout
import Dialogue.Proofs.Number.Numeral
import Dialogue.Proofs.Parser.Misses

/-!
# Tokens of expressions

What the rules for tokens answer, given what is ahead. A token is read behind the white space before
it (`lexeme_eq`), if it is on a line that is indented enough. That is said once of all that is ahead
(`Cursor.Level`), and of a whole source it can be told from its lines (`Cursor.level_ofChars`).
-/

namespace Dialogue

open Dialogue.Parser

/-- Behind some text the offset has grown by the bytes of that text. -/
theorem Cursor.index_skip_append {c : Cursor} {w ys : List Char} (h : c.rest = w ++ ys) :
    (c.skip w.length).index = c.index + byteSize w := by
  rw [index_skip, h, List.take_left]

/-- Everything ahead is on a line that is indented like the reference or more. -/
def Cursor.Level (c : Cursor) : Prop :=
  ∀ n, ∀ x ∈ (c.skip n).rest.head?, Text.isSpace x = false → c.reference.column ≤ (c.skip n).column

/-- What is behind a level place is level as well. -/
theorem Cursor.Level.skip {c : Cursor} (h : c.Level) (n : Nat) : (c.skip n).Level := by
  intro m
  rw [skip_skip]
  exact h (n + m)

/-- Every line of the source with a token on it is indented like its first line or more. -/
theorem Cursor.level_of_lines {source : List Char} {tabSize : Nat}
    (h : ∀ l ∈ Layout.lines source, ¬ l.text.all Text.isSpace →
      (ofChars source tabSize).reference.column ≤ leadingColumn (max tabSize 1) 1 l.text) :
    (ofChars source tabSize).Level := by
  intro n x hx hspace
  have hblank : Text.isBlank x = false :=
    Bool.eq_false_iff.2 fun h => by simp [Text.isSpace_of_isBlank h] at hspace
  have hbreak : Text.isBreak x = false :=
    Bool.eq_false_iff.2 fun h => by simp [Text.isSpace_of_isBreak h] at hspace
  obtain ⟨xs, hrest⟩ := List.head?_eq_some_iff.1 hx
  obtain ⟨l, hl, v, hv⟩ := Layout.exists_line (source.take n) hbreak xs
  have hdrop : source.drop n = x :: xs := hrest
  rw [← hdrop, List.take_append_drop] at hl
  have hcolumn := h l hl (by simp [hv, hspace])
  have hbehind : ((ofChars source tabSize).skip n).behind =
      (source.take n).reverse.takeWhile (!Text.isBreak ·) :=
    congrArg (List.takeWhile _) (List.append_nil _)
  rw [hv, Layout.leadingColumn_append hblank v xs, ← hbehind, ← hrest] at hcolumn
  rw [Cursor.column_eq]
  exact hcolumn

/-- Every line of the source that is not blank is indented like its first line or more. -/
theorem Cursor.level_ofChars {source : List Char} {tabSize : Nat}
    (h : ∀ l ∈ Layout.lines source, ¬ l.text.all Text.isBlank →
      (ofChars source tabSize).reference.column ≤ leadingColumn (max tabSize 1) 1 l.text) :
    (ofChars source tabSize).Level :=
  level_of_lines fun l hl hspace => h l hl fun hblank => hspace <| List.all_eq_true.2 fun x hx =>
    Text.isSpace_of_isBlank (List.all_eq_true.1 hblank x hx)

namespace Text

variable {xs ys zs : List Char}

/-- The characters of a name or of a word do not go on from one text to the other. -/
def apart (xs ys : List Char) : Bool := !(xs.getLast?.any isWord && ys.head?.any isWord)

/-- Behind a name no name is next. -/
theorem not_isWord_of_apart (h : apart xs ys) (hxs : ∃ y ∈ xs.getLast?, isWord y) :
    ∀ x ∈ ys.head?, isWord x = false := by
  obtain ⟨y, hy, hword⟩ := hxs
  intro x hx
  simpa [apart, Option.mem_def.1 hy, Option.mem_def.1 hx, hword] using h

/-- A spelling is apart from what does not go on with a word. -/
theorem apart_of_not_isWord (h : ∀ x ∈ ys.head?, isWord x = false) (xs : List Char) :
    apart xs ys := by
  cases hy : ys.head? with
  | none => simp [apart, hy]
  | some y => simp [apart, hy, h y hy]

/-- Only what is last in the text counts. -/
theorem apart_append_left (hys : ys ≠ []) : apart (xs ++ ys) zs = apart ys zs := by
  rw [apart, List.getLast?_append, List.getLast?_eq_some_getLast hys, Option.some_or, apart,
    List.getLast?_eq_some_getLast hys]

/-- Only what is first counts. -/
theorem apart_append_right (hys : ys ≠ []) : apart xs (ys ++ zs) = apart xs ys := by
  rw [apart, List.head?_append, List.head?_eq_some_head hys, Option.some_or, apart,
    List.head?_eq_some_head hys]

/-- Text ends in a word character if what it ends with does. -/
theorem exists_last_of_isWord (hys : ys ≠ []) (hword : ∀ y ∈ ys, isWord y) (xs : List Char) :
    ∃ y ∈ (xs ++ ys).getLast?, isWord y := by
  refine ⟨ys.getLast hys, ?_, hword _ (List.getLast_mem hys)⟩
  rw [List.getLast?_append, List.getLast?_eq_some_getLast hys]
  rfl

end Text

namespace Name

/-- A name starts with a word character that is no digit. -/
theorem exists_cons (n : Name) :
    ∃ x xs, n.chars = x :: xs ∧ Text.isWord x ∧ x.isDigit = false := by
  obtain ⟨x, hx, hdigit, -⟩ := n.first
  obtain ⟨xs, hn⟩ := List.head?_eq_some_iff.1 hx
  exact ⟨x, xs, hn, n.word x (by rw [hn]; exact List.mem_cons_self), hdigit⟩

/-- A name has a first character. -/
theorem ne_nil (n : Name) : n.chars ≠ [] := by
  obtain ⟨x, xs, hn, -⟩ := n.exists_cons
  rw [hn]
  exact List.cons_ne_nil _ _

/-- Text that ends in a name ends in a word character. -/
theorem last_isWord (n : Name) (xs : List Char) :
    ∃ y ∈ (xs ++ n.chars).getLast?, Text.isWord y :=
  Text.exists_last_of_isWord n.ne_nil n.word xs

end Name

namespace Facts

/-- Notes uses of variables. -/
def note (f : Facts) (us : List (Found Use)) : Facts := { f with uses := f.uses ++ us }

/-- Noting nothing changes nothing. -/
@[simp] theorem note_nil (f : Facts) : f.note [] = f := by simp [note]

/-- Notes are added one after the other. -/
theorem note_append (f : Facts) (us vs : List (Found Use)) :
    f.note (us ++ vs) = (f.note us).note vs := by
  simp [note]

end Facts

namespace Grammar

variable {σ α : Type} {c c' : Cursor} {f : Facts} {gap : Gap} {x : Char} {xs zs : List Char}

/-! ## White space -/

/-- White space is skipped up to the first character that is none. -/
theorem skipWhile_gap (h : c.rest = gap.1 ++ x :: xs) (hx : Text.isSpace x = false) :
    c.skipWhile Text.isSpace = c.skip gap.1.length := by
  rw [Cursor.skipWhile, h, List.takeWhile_append_of_pos gap.2,
    List.takeWhile_cons_of_neg (by simp [hx]), List.append_nil]

/-- A token is read behind white space, on a line that is indented enough. -/
theorem lexeme_apply (p : Parser σ α) (c : Cursor) (j : σ) :
    lexeme p c j =
      if c.reference.column ≤ (c.skipWhile Text.isSpace).column then
        p (c.skipWhile Text.isSpace) j
      else
        .miss (c.skipWhile Text.isSpace).index
          [s!"line indented to column {c.reference.column} or more"] j := by
  have hspaces : spaces c j =
      .ok (c.rest.takeWhile Text.isSpace) (c.skipWhile Text.isSpace) j := rfl
  rw [lexeme, bind_eq hspaces]
  by_cases h : c.reference.column ≤ (c.skipWhile Text.isSpace).column
  · have hindent : sameOrIndented (c.skipWhile Text.isSpace) j =
        .ok (c.skipWhile Text.isSpace).column (c.skipWhile Text.isSpace) j :=
      if_pos (decide_eq_true h)
    rw [bind_eq hindent, if_pos h]
  · have hindent : sameOrIndented (c.skipWhile Text.isSpace) j =
        .miss (c.skipWhile Text.isSpace).index
          [s!"line indented to column {c.reference.column} or more"] j :=
      if_neg fun hd => h (of_decide_eq_true hd)
    rw [bind_apply, hindent, if_neg h]
    rfl

/-- A token is read behind the white space before it. -/
theorem lexeme_eq {p : Parser σ α} {j : σ} (hc : c.Level) (h : c.rest = gap.1 ++ x :: xs)
    (hx : Text.isSpace x = false) : lexeme p c j = p (c.skip gap.1.length) j := by
  have hcolumn := hc gap.1.length x (by rw [Cursor.rest_skip_append h]; rfl) hx
  rw [lexeme_apply, skipWhile_gap h hx, if_pos hcolumn]

/-- A token fails without a trace if it does behind the white space before it. -/
theorem misses_lexeme {p : Parser σ α} {j : σ} (h : Misses p (c.skipWhile Text.isSpace) j) :
    Misses (lexeme p) c j := by
  rw [Misses, lexeme_apply]
  split
  · exact h
  · exact ⟨_, _, _, rfl⟩

/-- A character that is ahead is read. -/
theorem char_eq {j : σ} (h : c.rest = x :: xs) : char x c j = .ok x (c.skip 1) j := by
  simp [char, satisfy, h]

/-- A character that is not ahead is missed. -/
theorem misses_char {j : σ} (h : ∀ y ∈ c.rest.head?, y ≠ x) : Misses (char x) c j := by
  refine ⟨c.index, [String.singleton x], j, ?_⟩
  rw [char, satisfy]
  split
  · rename_i y ys hrest
    rw [if_neg (by simpa using h y (by rw [hrest]; rfl))]
  · rfl

/-- A sign is read with the gap before it. -/
theorem lexeme_char_eq {j : σ} (hc : c.Level) (h : c.rest = gap.1 ++ x :: xs)
    (hx : Text.isSpace x = false) :
    lexeme (char x) c j = .ok x (c.skip (gap.1 ++ [x]).length) j := by
  rw [lexeme_eq hc h hx, char_eq (Cursor.rest_skip_append h), Cursor.skip_skip, List.length_append,
    List.length_singleton]

/-- What is behind a gap starts with the first character that is not white space. -/
theorem dropWhile_gap (hx : Text.isSpace x = false) :
    (gap.1 ++ x :: xs).dropWhile Text.isSpace = x :: xs := by
  rw [List.dropWhile_append_of_pos gap.2, List.dropWhile_cons_of_neg (by simp [hx])]

/-! ## Words and signs -/

/-- The first character of a run is the next one, and is in its class. -/
theorem head_of_takeWhile {set : Char → Bool} {x : Char}
    (h : x ∈ (c.rest.takeWhile set).head?) : x ∈ c.rest.head? ∧ set x := by
  obtain ⟨xs, hxs⟩ := List.head?_eq_some_iff.1 h
  refine ⟨?_, List.all_eq_true.1 List.all_takeWhile x (hxs ▸ List.mem_cons_self)⟩
  rw [← List.takeWhile_append_dropWhile (p := set) (l := c.rest), hxs]
  rfl

/-- A word that is next is the run of the characters of names. -/
theorem of_keyword_eq_ok {word a : String} {j j' : σ} (h : keyword word c j = .ok a c' j')
    (hword : word.toList.all Text.isWord) :
    c' = c.skipWhile Text.isWord ∧ c.rest.takeWhile Text.isWord = word.toList := by
  rw [keyword] at h
  split at h
  · rename_i hnext
    cases h
    obtain ⟨hpre, hstop⟩ := Bool.and_eq_true_iff.1 hnext
    obtain ⟨ys, hys⟩ := List.isPrefixOf_iff_prefix.1 hpre
    have hrun : c.rest.takeWhile Text.isWord = word.toList := by
      rw [← hys, takeWhile_append_of_head, takeWhile_of_all (List.all_eq_true.1 hword)]
      intro x hx
      rw [← hys, ← String.length_toList, List.drop_left, Option.mem_def.1 hx] at hstop
      simpa using hstop
    exact ⟨by rw [Cursor.skipWhile, hrun, String.length_toList], hrun⟩
  · cases h

/-- A word is read where it is not the start of a longer one. -/
theorem keyword_eq {w : String} {j : σ} (h : c.rest = w.toList ++ zs)
    (hzs : ∀ x ∈ zs.head?, Text.isWord x = false) :
    keyword w c j = .ok w (c.skip w.length) j := by
  rw [keyword, if_pos]
  rw [h, Bool.and_eq_true, ← String.length_toList, List.drop_left]
  refine ⟨List.isPrefixOf_iff_prefix.2 (List.prefix_append _ _), ?_⟩
  cases hx : zs.head? with
  | none => rfl
  | some x => simpa using hzs x hx

/-- A word is missing where the characters of names that are next are not the word. -/
theorem misses_keyword {w : String} {j : σ} (hw : w.toList.all Text.isWord)
    (h : c.rest.takeWhile Text.isWord ≠ w.toList) : Misses (keyword w) c j := by
  cases hr : keyword w c j with
  | ok a c' j' => exact absurd (of_keyword_eq_ok hr hw).2 h
  | miss i e j' => exact ⟨i, e, j', hr⟩
  | fatal i x j' =>
    rw [keyword] at hr
    split at hr <;> cases hr

/-- A spelling that is ahead is read. -/
theorem tag_eq {w : String} {j : σ} (h : c.rest = w.toList ++ zs) :
    tag w c j = .ok w (c.skip w.length) j := by
  rw [tag, h, if_pos (List.isPrefixOf_iff_prefix.2 (List.prefix_append _ _))]

/-- How operators may be spelled: as a word, or as something that starts like no word. They can be
    told from each other by their first characters. -/
def wellSpelled (ws : List String) : Bool :=
  ws.all fun w => w.toList.head?.any (!Text.isSpace ·) &&
    (w.toList.all Text.isWord || !w.toList.head?.any Text.isWord) &&
      ws.all fun v => v = w || v.toList.head? ≠ w.toList.head?

section

variable {ws : List String} {w : String} (hws : wellSpelled ws) (hw : w ∈ ws)

include hws hw

/-- A spelling of the grammar starts with a character that is not white space. -/
theorem exists_first : ∃ x xs, w.toList = x :: xs ∧ Text.isSpace x = false := by
  have h := List.all_eq_true.1 hws w hw
  rw [Bool.and_eq_true, Bool.and_eq_true] at h
  obtain ⟨x, hx, hspace⟩ := (Option.any_eq_true _ _).1 h.1.1
  obtain ⟨xs, hxs⟩ := List.head?_eq_some_iff.1 hx
  exact ⟨x, xs, hxs, by simpa using hspace⟩

/-- An operator is read where what is behind it is apart from it. -/
theorem symbol_eq {j : σ} (h : c.rest = w.toList ++ zs) (hzs : Text.apart w.toList zs) :
    symbol w c j = .ok w (c.skip w.length) j := by
  obtain ⟨x, xs, hx, -⟩ := exists_first hws hw
  have hform := List.all_eq_true.1 hws w hw
  rw [Bool.and_eq_true, Bool.and_eq_true, Bool.or_eq_true] at hform
  rw [symbol]
  split
  · rename_i hhead
    have hall : w.toList.all Text.isWord := by simpa [hhead] using hform.1.2
    have hlast := Text.exists_last_of_isWord (by rw [hx]; exact List.cons_ne_nil _ _)
      (List.all_eq_true.1 hall) []
    exact keyword_eq h (Text.not_isWord_of_apart hzs hlast)
  · exact tag_eq h

/-- Where another character is next the spelling is missing. -/
theorem misses_symbol {j : σ} (h : ∀ x ∈ c.rest.head?, w.toList.head? ≠ some x) :
    Misses (symbol w) c j := by
  obtain ⟨x, xs, hx, -⟩ := exists_first hws hw
  have hprefix : w.toList.isPrefixOf c.rest = false := by
    rw [hx] at h ⊢
    cases hrest : c.rest with
    | nil => rfl
    | cons y ys =>
      have hne : x ≠ y := fun heq => h y (by rw [hrest]; rfl) (congrArg some heq)
      rw [List.isPrefixOf, beq_eq_false_iff_ne.2 hne, Bool.false_and]
  rw [symbol]
  split
  · exact ⟨_, _, _, by rw [keyword, hprefix, Bool.false_and, if_neg Bool.false_ne_true]⟩
  · exact ⟨_, _, _, by rw [tag, hprefix, if_neg Bool.false_ne_true]⟩

/-- Another spelling starts with another character. -/
theorem head_ne_of_ne {v : String} (hv : v ∈ ws) (hne : v ≠ w) :
    v.toList.head? ≠ w.toList.head? := by
  have h := List.all_eq_true.1 hws w hw
  rw [Bool.and_eq_true] at h
  simpa [hne] using List.all_eq_true.1 h.2 v hv

end

/-- Of several spellings the one that is next is read. -/
theorem spelled_eq {w : String} {c' : Cursor} (h : symbol w c f = .ok w c' f) :
    {ws : List String} → w ∈ ws → (∀ v ∈ ws, v ≠ w → Misses (symbol v) c f) →
      spelled ws c f = .ok w c' f
  | [v], hw, _ => by
    cases List.mem_singleton.1 hw
    exact h
  | v :: u :: ws, hw, hmiss => by
    by_cases hv : v = w
    · subst hv
      exact orElse_eq h
    · refine (hmiss v List.mem_cons_self hv).orElse_eq ?_
      exact spelled_eq h ((List.mem_cons.1 hw).resolve_left (Ne.symm hv)) fun u hu =>
        hmiss u (List.mem_cons_of_mem _ hu)

/-- No spelling is read where each of them is missed. -/
theorem misses_spelled :
    {ws : List String} → (∀ w ∈ ws, Misses (symbol w) c f) → Misses (spelled ws) c f
  | [], _ => ⟨_, _, _, rfl⟩
  | [_], h => h _ List.mem_cons_self
  | _ :: _ :: _, h => (h _ List.mem_cons_self).orElse
    (misses_spelled fun w hw => h w (List.mem_cons_of_mem _ hw))

/-- No reserved word is next. -/
def NoWord (xs : List Char) : Prop := ∀ w ∈ reserved, xs.takeWhile Text.isWord ≠ w.toList

/-- A word of the grammar is missed where none is ahead. -/
theorem NoWord.misses_keyword {w : String} {j : σ} (h : NoWord c.rest) (hw : w ∈ reserved) :
    Misses (keyword w) c j := by
  have hall : reserved.all (·.toList.all Text.isWord) := by decide
  exact Grammar.misses_keyword (List.all_eq_true.1 hall w hw) (h w hw)

/-- What starts like no name is no word. -/
theorem noWord_of_head (h : ∀ x ∈ xs.head?, Text.isWord x → x.isDigit) : NoWord xs := by
  have hall : reserved.all (·.toList.head?.any fun x => Text.isWord x && !x.isDigit) := by decide
  intro w hw hrun
  obtain ⟨x, hx, hform⟩ := (Option.any_eq_true _ _).1 (List.all_eq_true.1 hall w hw)
  obtain ⟨hword, hdigit⟩ := Bool.and_eq_true_iff.1 hform
  cases xs with
  | nil =>
    rw [← hrun] at hx
    cases hx
  | cons y ys =>
    by_cases hy : Text.isWord y
    · rw [← hrun, List.takeWhile_cons_of_pos hy] at hx
      cases hx
      rw [h x rfl hy] at hdigit
      cases hdigit
    · rw [← hrun, List.takeWhile_cons_of_neg hy] at hx
      cases hx

/-- A name is not read as a word of the grammar. -/
theorem noWord_of_name (n : Name) (hzs : ∀ x ∈ zs.head?, Text.isWord x = false) :
    NoWord (n.chars ++ zs) := by
  intro w hw hrun
  rw [takeWhile_append_of_head hzs, takeWhile_of_all n.word] at hrun
  refine n.free ?_
  rwa [hrun, String.ofList_toList]

/-- No word is next on the line if none is behind all white space. -/
theorem NoWord.dropWhile_isBlank (h : NoWord (zs.dropWhile Text.isSpace)) :
    NoWord (zs.dropWhile Text.isBlank) := by
  cases hzs : zs.dropWhile Text.isBlank with
  | nil => exact noWord_of_head nofun
  | cons x xs =>
    by_cases hx : Text.isWord x
    · have hspaces : ∀ y ∈ zs.takeWhile Text.isBlank, Text.isSpace y := fun y hy =>
        Text.isSpace_of_isBlank (List.all_eq_true.1 List.all_takeWhile y hy)
      rw [← List.takeWhile_append_dropWhile (p := Text.isBlank) (l := zs),
        List.dropWhile_append_of_pos hspaces, hzs,
        List.dropWhile_cons_of_neg (by simp [Text.not_isSpace_of_isWord hx])] at h
      exact h
    · refine noWord_of_head ?_
      rintro _ ⟨⟩ hword
      exact absurd hword hx

/-! ## Operators -/

/-- An operator is read in any of its spellings. -/
theorem operator_of_mem {ws : List String} {w : String} (hws : wellSpelled ws) (hw : w ∈ ws)
    (hc : c.Level) (h : c.rest = (gap.1 ++ w.toList) ++ zs) (hzs : Text.apart w.toList zs) (a : α) :
    operator a ws c f = .ok a (c.skip (gap.1 ++ w.toList).length) f := by
  obtain ⟨x, xs, hx, hspace⟩ := exists_first hws hw
  rw [List.append_assoc] at h
  have hfirst : c.rest = gap.1 ++ x :: (xs ++ zs) := by rw [h, hx, List.cons_append]
  have hrest := Cursor.rest_skip_append h
  have hspelled : lexeme (spelled ws) c f = .ok w (c.skip (gap.1 ++ w.toList).length) f := by
    rw [lexeme_eq hc hfirst hspace, spelled_eq (symbol_eq hws hw hrest hzs) hw, Cursor.skip_skip,
      List.length_append, String.length_toList]
    refine fun v hv hne => misses_symbol hws hv fun y hy heq => ?_
    refine head_ne_of_ne hws hw hv hne (heq.trans (Eq.trans hy.symm ?_))
    rw [hrest, hx]
    rfl
  exact bind_eq hspelled

/-- An operator is missing where none of its spellings starts. -/
theorem misses_operator_of_head {ws : List String} (hws : wellSpelled ws)
    (h : ∀ x ∈ (c.rest.dropWhile Text.isSpace).head?, ∀ w ∈ ws, w.toList.head? ≠ some x) (a : α) :
    Misses (operator a ws) c f := by
  refine (misses_lexeme (misses_spelled fun w hw => misses_symbol hws hw fun x hx => ?_)).bind _
  rw [Cursor.rest_skipWhile] at hx
  exact h x hx w hw

/-- An operator of arithmetic is spelled by one character. -/
theorem toList_sign (op : ArithOp) : op.sign.toList = [op.char] := by cases op <;> rfl

/-- The sign of an operator is a spelling tokens can be read by. -/
theorem wellSpelled_sign (op : ArithOp) : wellSpelled [op.sign] := by cases op <;> decide

/-- An operator is read with the gap before it. -/
theorem operator_eq (hc : c.Level) {op : ArithOp} (h : c.rest = gap.1 ++ op.char :: xs) (a : α) :
    operator a [op.sign] c f = .ok a (c.skip (gap.1 ++ [op.char]).length) f := by
  have hword : Text.isWord op.char = false := by cases op <;> decide
  have hrest : c.rest = (gap.1 ++ op.sign.toList) ++ xs := by
    rw [h, toList_sign, List.append_assoc]
    rfl
  rw [← toList_sign]
  refine operator_of_mem (wellSpelled_sign op) List.mem_cons_self hc hrest ?_ a
  rw [Text.apart, toList_sign, List.getLast?_singleton, Option.any_some, hword]
  rfl

/-- An operator is missed where another character is next. -/
theorem misses_operator {op : ArithOp}
    (h : ∀ x ∈ (c.rest.dropWhile Text.isSpace).head?, x ≠ op.char) (a : α) :
    Misses (operator a [op.sign]) c f := by
  refine misses_operator_of_head (wellSpelled_sign op) (fun x hx w hw heq => h x hx ?_) a
  rw [List.mem_singleton.1 hw, toList_sign] at heq
  exact (Option.some.inj heq).symm

/-- Operators of one rank. -/
def tier (a b : ArithOp) : Rule (Expr .number → Expr .number → Expr .number) :=
  operator (.arith a) [a.sign] <|> operator (.arith b) [b.sign]

/-- Of two operators of one strength, the one that is ahead is read. -/
theorem tier_eq {a b op : ArithOp} (hc : c.Level) (hop : op = a ∨ op = b)
    (h : c.rest = gap.1 ++ op.char :: xs) :
    tier a b c f = .ok (.arith op) (c.skip (gap.1 ++ [op.char]).length) f := by
  by_cases ha : op = a
  · subst ha
    exact orElse_eq (operator_eq hc h _)
  · obtain rfl := hop.resolve_left ha
    refine Misses.orElse_eq (misses_operator (fun x hx => ?_) _) (operator_eq hc h _)
    rw [h, dropWhile_gap op.isSpace_char] at hx
    cases hx
    exact fun heq => ha (ArithOp.char_injective heq)

/-! ## Operands -/

variable {registry : Registry} {inner : Nested}

/-- What does not start with a parenthesis is not parenthesized. -/
theorem misses_parenthesized {p : Rule α} (hx : x ≠ '(') (hspace : Text.isSpace x = false)
    (h : c.rest = gap.1 ++ x :: xs) : Misses (parenthesized p) c f := by
  refine (misses_lexeme (misses_char ?_)).bind _
  rw [Cursor.rest_skipWhile, h, dropWhile_gap hspace]
  rintro _ ⟨⟩
  exact hx

/-- What does not start with a sign or a digit is no number. -/
theorem misses_number {j : σ} (h : ∀ y ∈ c.rest.head?, y.isDigit = false ∧ y ≠ '+' ∧ y ≠ '-') :
    Misses number c j := by
  have hnumeral : numeral? c.rest = none := by
    cases hrest : c.rest with
    | nil => rfl
    | cons y ys =>
      obtain ⟨hdigit, hplus, hminus⟩ := h y (by rw [hrest]; rfl)
      simp [numeral?_signed, signed, hplus, hminus, digitRun, hdigit]
  exact ⟨c.index, ["number"], j, by simp only [number, hnumeral]⟩

/-- A run that is not empty is read as a whole. -/
theorem takeWhile1_of_run {set : Char → Bool} {what : String} {j : σ}
    (h : c.rest.takeWhile set = x :: xs) :
    takeWhile1 set what c j = .ok (x :: xs) (c.skip (x :: xs).length) j := by
  rw [takeWhile1, h]

/-- A run of word characters is a name unless it starts with a digit or an underscore. -/
theorem identifier_of_run {j : σ} (h : c.rest.takeWhile Text.isWord = x :: xs)
    (hdigit : x.isDigit = false) (hunderscore : x ≠ '_') :
    identifier c j = .ok (String.ofList (x :: xs)) (c.skip (x :: xs).length) j := by
  refine map_eq ?_
  simp [filter, takeWhile1_of_run h, hdigit, hunderscore]

/-- A name is read up to where its word ends. -/
theorem identifier_eq {n : Name} {j : σ} (h : c.rest = n.chars ++ zs)
    (hzs : ∀ x ∈ zs.head?, Text.isWord x = false) :
    identifier c j = .ok (String.ofList n.chars) (c.skip n.chars.length) j := by
  have hrun : c.rest.takeWhile Text.isWord = n.chars := by
    rw [h, takeWhile_append_of_head hzs, takeWhile_of_all n.word]
  obtain ⟨x, hx, hdigit, hunderscore⟩ := n.first
  obtain ⟨xs, hn⟩ := List.head?_eq_some_iff.1 hx
  rw [hn] at hrun ⊢
  exact identifier_of_run hrun hdigit hunderscore

/-- A name that is no word of the grammar is read as one. -/
theorem unreserved_eq {n : Name} {j : σ} (h : c.rest = n.chars ++ zs)
    (hzs : ∀ x ∈ zs.head?, Text.isWord x = false) :
    unreserved c j = .ok (String.ofList n.chars) (c.skip n.chars.length) j := by
  simp [unreserved, filter, identifier_eq h hzs, n.free]

/-- What starts like no name is none. -/
theorem misses_unreserved {j : σ} (h : ∀ x ∈ c.rest.head?, Text.isWord x → x.isDigit) :
    Misses unreserved c j := by
  refine ((Misses.filter ?_ _).bind _).filter _
  cases hrun : c.rest.takeWhile Text.isWord with
  | nil => exact .filter ⟨_, _, _, by rw [takeWhile1, hrun]⟩ _
  | cons x xs =>
    obtain ⟨hx, hword⟩ := head_of_takeWhile (c := c) (x := x) (by rw [hrun]; rfl)
    exact misses_filter (takeWhile1_of_run hrun) (by simpa using h x hx hword) _

/-- A reserved word is no name. -/
theorem misses_unreserved_of_word {w : String} {j : σ} (hw : w ∈ reserved)
    (h : c.rest.takeWhile Text.isWord = w.toList) : Misses unreserved c j := by
  have hall : reserved.all fun w => w.toList.head?.any fun x => !x.isDigit && x ≠ '_' := by decide
  obtain ⟨x, hx, hform⟩ := (Option.any_eq_true _ _).1 (List.all_eq_true.1 hall w hw)
  obtain ⟨xs, hxs⟩ := List.head?_eq_some_iff.1 hx
  obtain ⟨hdigit, hunderscore⟩ := Bool.and_eq_true_iff.1 hform
  rw [hxs] at h
  refine misses_filter
    (identifier_of_run h (by simpa using hdigit) (of_decide_eq_true hunderscore)) ?_ _
  rw [← hxs, String.ofList_toList]
  simpa using hw

/-- There is no call where there is no name. -/
theorem misses_call_of_unreserved {k : Category} (h : Misses unreserved c f) :
    Misses (call registry inner k) c f :=
  .after (rfl : position c f = .ok c.index c f) (h.bind _)

/-- There is no variable where there is no name. -/
theorem misses_variableName {j : σ} (h : Misses unreserved c j) : Misses variableName c j :=
  h.bind _

/-- Of whatever category, there is no variable where there is no name. -/
theorem misses_variableOf {k : Category} (h : Misses unreserved c f) : Misses (variableOf k) c f :=
  .after (rfl : position c f = .ok c.index c f) ((misses_variableName h).bind _)

/-- A name without a parenthesis behind it is no call. -/
theorem misses_call {k : Category} {n : Name} (h : c.rest = n.chars ++ zs)
    (hzs : ∀ x ∈ zs.head?, Text.isWord x = false ∧ x ≠ '(') :
    Misses (call registry inner k) c f := by
  have hname := unreserved_eq (j := f) h fun x hx => (hzs x hx).1
  refine .after (rfl : position c f = .ok c.index c f) (.after hname ?_)
  refine (misses_char fun x hx => ?_).bind _
  rw [Cursor.rest_skip_append h] at hx
  exact (hzs x hx).2

/-- A name without a parenthesis behind it is read as a variable. -/
theorem variableName_eq {n : Name} {j : σ} (h : c.rest = n.chars ++ zs)
    (hzs : ∀ x ∈ zs.head?, Text.isWord x = false ∧ x ≠ '(') :
    variableName c j = .ok (String.ofList n.chars) (c.skip n.chars.length) j := by
  have hname := unreserved_eq (j := j) h fun x hx => (hzs x hx).1
  have hparen : Misses (char '(') (c.skip n.chars.length) j :=
    misses_char fun x hx => (hzs x (by rwa [Cursor.rest_skip_append h] at hx)).2
  exact (bind_eq hname).trans (bind_eq (hparen.notFollowedBy _))

/-- A variable is read with its category, and its use is noted where it stands. -/
theorem variableOf_eq {k : Category} {n : Name} (h : c.rest = n.chars ++ zs)
    (hzs : ∀ x ∈ zs.head?, Text.isWord x = false ∧ x ≠ '(') :
    variableOf k c f = .ok (.variable (String.ofList n.chars)) (c.skip n.chars.length)
      (f.note [⟨c.index, .typed (String.ofList n.chars) k⟩]) := by
  exact (bind_eq (rfl : position c f = .ok c.index c f)).trans (bind_eq (variableName_eq h hzs))

/-! ## What is ahead of an answer -/

/-- The token is read behind the white space. -/
theorem of_lexeme_eq_ok {p : Parser σ α} {j j' : σ} {a : α} (h : lexeme p c j = .ok a c' j') :
    p (c.skipWhile Text.isSpace) j = .ok a c' j' := by
  rw [lexeme_apply] at h
  split at h
  · exact h
  · cases h

/-- A name is the run of the characters of names that are next, and starts with no digit. -/
theorem of_identifier_eq_ok {j j' : σ} {name : String} (h : identifier c j = .ok name c' j') :
    c' = c.skipWhile Text.isWord ∧
      ∃ x ∈ (c.rest.takeWhile Text.isWord).head?, x.isDigit = false := by
  obtain ⟨run, c₁, j₁, hrun, hname⟩ := of_bind_eq_ok h
  cases hname
  obtain ⟨hrun, hdigit⟩ := of_filter_eq_ok (of_filter_eq_ok hrun).1
  rw [takeWhile1] at hrun
  cases htake : c.rest.takeWhile Text.isWord with
  | nil =>
    rw [htake] at hrun
    cases hrun
  | cons x xs =>
    rw [htake] at hrun
    cases hrun
    exact ⟨by rw [Cursor.skipWhile, htake], x, rfl, by simpa using hdigit⟩

/-- A name takes a whole run of word characters, which does not start with a digit. -/
theorem of_unreserved_eq_ok {j j' : σ} {name : String} (h : unreserved c j = .ok name c' j') :
    c' = c.skipWhile Text.isWord ∧
      ∃ x ∈ (c.rest.takeWhile Text.isWord).head?, x.isDigit = false :=
  of_identifier_eq_ok (of_filter_eq_ok h).1

/-- The name is that run, and not reserved. -/
theorem name_of_unreserved {j j' : σ} {name : String} (h : unreserved c j = .ok name c' j') :
    name = String.ofList (c.rest.takeWhile Text.isWord) ∧ name ∉ reserved := by
  obtain ⟨hname, hfree⟩ := of_filter_eq_ok h
  obtain ⟨run, c₁, j₁, hrun, hname⟩ := of_bind_eq_ok hname
  cases hname
  obtain ⟨hrun, -⟩ := of_filter_eq_ok (of_filter_eq_ok hrun).1
  rw [takeWhile1] at hrun
  split at hrun <;> cases hrun
  exact ⟨rfl, by simpa using hfree⟩

/-- What a number starts with. -/
theorem head_of_number {j j' : σ} {a : Float} (h : number c j = .ok a c' j') :
    ∃ x ∈ c.rest.head?, x.isDigit ∨ x = '+' ∨ x = '-' := by
  refine Classical.byContradiction fun hnone => ?_
  obtain ⟨i, e, k, hmiss⟩ := misses_number (c := c) (j := j) fun y hy => by
    simpa using fun hy' => hnone ⟨y, hy, hy'⟩
  rw [hmiss] at h
  cases h

end Grammar

end Dialogue
