import Dialogue.Proofs.Grammar.Agree
import Dialogue.Proofs.Grammar.Margin
import Dialogue.Proofs.Grammar.Relation

/-!
# Comparisons as relations

A comparison and a relation have the same four alternatives. A comparison takes them in order; a
relation reads a truth value at most once, and looks ahead for an arithmetic sign behind it. Where a
comparison answers, a relation answers the same, ends at the same place and notes the same facts,
unless the comparison took truth values for its operands and left an arithmetic sign behind them:
there the relation compares numbers (`relation_follows_comparison`).

What makes this so is that an operand ends at the same place whatever category it is read in
(`ends_alike`). For parentheses this is seen from the characters alone: both readings end behind the
first parenthesis that closes them (`Region.closing_unique`).
-/

namespace Dialogue

open Dialogue.Parser

namespace Region

variable {s : List Region} {body body' xs xs' : List Char}

/-- What is open, if there is any, was opened in braces. -/
def Grounded (s : List Region) : Prop := s = [] ∨ s.getLast? = some braces

/-- What is opened inside of grounded regions is grounded. -/
theorem Grounded.cons {r : Region} (h : Grounded (r :: s)) (r' : Region) :
    Grounded (r' :: r :: s) := by
  refine .inr ?_
  rw [List.getLast?_cons_cons]
  exact h.resolve_left (List.cons_ne_nil _ _)

/-- What is left when the innermost region is closed is grounded. -/
theorem Grounded.tail {r : Region} (h : Grounded (r :: s)) : Grounded s := by
  cases s with
  | nil => exact .inl rfl
  | cons r' s =>
    refine .inr ?_
    rw [← h.resolve_left (List.cons_ne_nil _ _), List.getLast?_cons_cons]

/-- A region is opened in those that are open, or the innermost one is closed. -/
theorem after_cons (r : Region) (s : List Region) (x : Char) :
    after (r :: s) x = s ∨ after (r :: s) x = r :: s ∨ ∃ r', after (r :: s) x = r' :: r :: s := by
  cases r with
  | escape => exact .inl rfl
  | quotes =>
    rw [after]
    split
    · exact .inr (.inr ⟨_, rfl⟩)
    split
    · exact .inr (.inr ⟨_, rfl⟩)
    split
    · exact .inl rfl
    · exact .inr (.inl rfl)
  | braces | parens =>
    rw [after]
    · split
      · exact .inr (.inr ⟨_, rfl⟩)
      split
      · exact .inr (.inr ⟨_, rfl⟩)
      split
      · exact .inl rfl
      · exact .inr (.inl rfl)
    all_goals rintro ⟨⟩

/-- A character keeps what is open grounded. -/
theorem Grounded.after (h : Grounded s) (x : Char) : Grounded (after s x) := by
  cases s with
  | nil =>
    rw [Region.after]
    split
    · exact .inr rfl
    · exact .inl rfl
  | cons r s =>
    obtain hx | hx | ⟨r', hx⟩ := after_cons r s x
    · rw [hx]
      exact h.tail
    · rw [hx]
      exact h
    · rw [hx]
      exact h.cons r'

/-- Any text keeps what is open grounded. -/
theorem Grounded.afterAll (h : Grounded s) (xs : List Char) : Grounded (afterAll s xs) := by
  induction xs generalizing s with
  | nil => exact h
  | cons x xs ih => exact ih (h.after x)

/-- Behind a parenthesis there is this text up to the one that closes it. -/
def ClosesBehind (body xs : List Char) : Prop :=
  (∃ ys, xs = body ++ ')' :: ys) ∧ afterAll [parens] body = [parens]

/-- Once parentheses are closed nothing is open that was not opened in braces. So they are closed
    in one place only. -/
theorem ClosesBehind.unique (h : ClosesBehind body xs) (h' : ClosesBehind body' xs) :
    body = body' := by
  -- Behind the closing parenthesis nothing is open, and from there none opens that was not open
  -- before.
  have hnot {u v : List Char} (hv : afterAll [parens] v = [parens]) :
      afterAll [parens] (v ++ ')' :: u) ≠ [parens] := by
    have hsplit : afterAll [parens] (v ++ ')' :: u) = afterAll (afterAll [parens] v) (')' :: u) :=
      List.foldl_append
    have hclosed : afterAll [parens] (')' :: u) = afterAll [] u := rfl
    have hground : Grounded (Region.afterAll [] u) := Grounded.afterAll (.inl rfl) u
    intro hopen
    rw [hsplit, hv, hclosed] at hopen
    rw [hopen] at hground
    exact absurd hground (by simp [Grounded])
  obtain ⟨⟨ys, rfl⟩, hbody⟩ := h
  obtain ⟨⟨ys', heq⟩, hbody'⟩ := h'
  obtain ⟨u, rfl, hu⟩ | ⟨u, rfl, hu⟩ := List.append_eq_append_iff.1 heq
  · cases u with
    | nil => exact (List.append_nil _).symm
    | cons x u =>
      cases hu
      exact absurd hbody' (hnot hbody)
  · cases u with
    | nil => exact List.append_nil _
    | cons x u =>
      cases hu
      exact absurd hbody (hnot hbody')

end Region

namespace Grammar

variable {α β : Type} {registry : Registry} {inner : Nested} {n : Nat} {c c' c₁ c₂ : Cursor}
  {f f' f₁ f₂ : Facts} {k : Category}

/-! ## Signs -/

/-- The rule notes nothing, and what it answers does not depend on what is noted. -/
def Oblivious (p : Rule α) : Prop :=
  ∀ c, (∃ a c', ∀ f, p c f = .ok a c' f) ∨ ∀ f, Misses p c f

/-- A token of a line does not depend on what is noted. -/
theorem oblivious_lexeme {p : Rule α} (hp : OfLine p) : Oblivious (lexeme p) := by
  intro c
  by_cases hcolumn : c.reference.column ≤ (c.skipWhile Text.isSpace).column
  · have happly (f : Facts) : lexeme p c f = p (c.skipWhile Text.isSpace) f := by
      rw [lexeme_apply, if_pos hcolumn]
    cases hr : p (c.skipWhile Text.isSpace) .empty with
    | ok a c' f' =>
      refine .inl ⟨a, c', fun f => ?_⟩
      have hsame := hp .empty f (rfl : (c.skipWhile Text.isSpace).line = _)
      rw [hr] at hsame
      rw [happly]
      generalize p (c.skipWhile Text.isSpace) f = r at hsame ⊢
      cases hsame
      rfl
    | miss i e f' =>
      refine .inr fun f => ?_
      rw [Misses, happly]
      exact hp.misses rfl ⟨i, e, f', hr⟩ f
    | fatal i r f' =>
      have hsame := hp .empty .empty (rfl : (c.skipWhile Text.isSpace).line = _)
      rw [hr] at hsame
      cases hsame
  · exact .inr fun f => ⟨_, _, _, by rw [lexeme_apply, if_neg hcolumn]⟩

/-- An operator does not depend on what is noted. -/
theorem oblivious_operator (a : α) {spellings : List String}
    (h : spellings.all (·.toList.all Region.isPlain)) : Oblivious (operator a spellings) := by
  intro c
  obtain ⟨w, c', hw⟩ | hmiss := oblivious_lexeme (ofSight_spelled spellings h).line c
  · exact .inl ⟨a, c', fun f => bind_eq (hw f)⟩
  · exact .inr fun f => (hmiss f).bind _

/-- The sign of arithmetic does not depend on what is noted. -/
theorem oblivious_arithmeticSign : Oblivious arithmeticSign := oblivious_operator () (by decide)

/-- The sign of a comparison does not depend on what is noted. -/
theorem oblivious_compareSign : Oblivious compareSign := by
  have hblanks : OfLine (blanks1 : Rule _) :=
    ofSight_takeWhile1 (fun _ => not_isBreak_of_class rfl rfl) _
  have hisNot : OfLine (do
      let _ ← keyword "is"
      let _ ← blanks1
      let _ ← keyword "not"
      return CompareOp.isNot : Rule _) :=
    (ofLine_keyword (by decide)).bind fun _ => hblanks.bind fun _ =>
      (ofLine_keyword (by decide)).bind fun _ => .pure _
  exact oblivious_lexeme <| hisNot.orElse <| (ofSight_tag (by decide)).map.orElse <|
    (ofLine_keyword (by decide)).map.orElse (ofSight_tag (by decide)).map

/-! ## Where an operand ends -/

/-- What is read up to the closing parenthesis ends behind it. -/
theorem closesBehind_of_parenthesized {p : Rule α} {a : α} (hp : Covers 0 p)
    (h : parenthesized p c f = .ok a c' f') :
    ∃ body xs, (c.skipWhile Text.isSpace).rest = '(' :: xs ∧ Region.ClosesBehind body xs ∧
      c' = (((c.skipWhile Text.isSpace).skip 1).skip body.length).skip 1 := by
  obtain ⟨_, c₁, f₁, hopen, h⟩ := of_bind_eq_ok h
  obtain ⟨b, c₂, f₂, hbody, h⟩ := of_bind_eq_ok h
  obtain ⟨_, c₃, f₃, hclose, h⟩ := of_bind_eq_ok h
  cases h
  obtain ⟨xs, hrest, rfl⟩ := char_eq_ok (of_lexeme_eq_ok hopen)
  obtain ⟨ys, hys, rfl⟩ := char_eq_ok (of_lexeme_eq_ok hclose)
  have hscan :
      Scans Region.after (Fits 0) Checked [.parens] (p <* spaces) [.parens] fun _ => True :=
    (hp _ holds_parens).seqLeft (scans_anySpaces (.inl holds_parens))
  have hchecked := checked_of_not_leads (Cursor.not_leads_skip_one hrest (by decide))
  have hrun : (p <* spaces) ((c.skipWhile Text.isSpace).skip 1) f₁ =
      .ok a (c₂.skipWhile Text.isSpace) f₂ := bind_eq hbody
  obtain ⟨k, hk, hplace, hstate, -⟩ := (hscan hchecked hrun).1.spelled
  rw [Cursor.rest_skip_one hrest] at hk hstate
  rw [hplace, Cursor.rest_skip, Cursor.rest_skip_one hrest] at hys
  refine ⟨xs.take k, xs, hrest, ⟨⟨ys, ?_⟩, hstate.symm⟩, ?_⟩
  · rw [← hys, List.take_append_drop]
  · rw [hplace, List.length_take, Nat.min_eq_left hk]

/-- Whatever is read in parentheses, it ends behind the one that closes them. -/
theorem parenthesized_ends {p : Rule α} {q : Rule β} {a : α} {b : β} (hp : Covers 0 p)
    (hq : Covers 0 q) (h : parenthesized p c f = .ok a c₁ f₁)
    (h' : parenthesized q c f' = .ok b c₂ f₂) : c₁ = c₂ := by
  obtain ⟨body, xs, hrest, hbody, rfl⟩ := closesBehind_of_parenthesized hp h
  obtain ⟨body', xs', hrest', hbody', rfl⟩ := closesBehind_of_parenthesized hq h'
  cases hrest.symm.trans hrest'
  rw [hbody.unique hbody']

/-- A name, or a word, is next. -/
def StartsName (c : Cursor) : Prop := ∃ x ∈ c.rest.head?, Text.isWord x ∧ x.isDigit = false

/-- A name starts with a word character only. -/
theorem StartsName.head_ne {x : Char} (h : StartsName c) (hx : Text.isWord x = false) :
    ∀ y ∈ c.rest.head?, y ≠ x := by
  obtain ⟨z, hz, hword, -⟩ := h
  rintro y hy rfl
  rw [← Option.mem_unique hz hy, hword] at hx
  cases hx

/-- A word that does not start with a digit starts a name. -/
theorem startsName_of_run (h : ∃ x ∈ (c.rest.takeWhile Text.isWord).head?, x.isDigit = false) :
    StartsName c := by
  obtain ⟨x, hx, hdigit⟩ := h
  obtain ⟨hhead, hword⟩ := head_of_takeWhile hx
  exact ⟨x, hhead, hword, hdigit⟩

/-- How an operand is read: in parentheses, as a word or as another token, as a call, or as a
    variable. -/
inductive Operand (registry : Registry) (inner : Nested) (k : Category) (c : Cursor) (f : Facts)
    (c' : Cursor) : Prop where
  /-- In parentheses. -/
  | parens {α : Type} {p : Rule α} {a : α} {f' : Facts} (hp : Covers 0 p)
    (h : parenthesized p c f = .ok a c' f')
  /-- A word for a truth value. -/
  | word {w a : String} {f' : Facts} (hk : k = .boolean) (hw : w ∈ reserved)
    (h : keyword w (c.skipWhile Text.isSpace) f = .ok a c' f')
  /-- Another token, which only numbers and texts are. -/
  | token (hk : k ≠ .boolean) {x : Char} (hx : x ∈ (c.skipWhile Text.isSpace).rest.head?)
    (hparen : x ≠ '(') (hname : Text.isWord x → x.isDigit)
  /-- A call. -/
  | called {e : Expr k} {f' : Facts}
    (h : call registry inner k (c.skipWhile Text.isSpace) f = .ok e c' f')
  /-- A variable. -/
  | named {e : Expr k} {f' : Facts}
    (h : variableOf k (c.skipWhile Text.isSpace) f = .ok e c' f')

/-- A truth value is an operand. -/
theorem operand_of_boolean {b : Expr .boolean}
    (h : boolean registry (.upTo registry n) c f = .ok b c' f') :
    Operand registry (.upTo registry n) .boolean c f c' := by
  have hword {w : String} {v : Expr .boolean} (hw : w ∈ reserved)
      (h : ((fun _ => v) <$> lexeme (keyword w) : Rule (Expr .boolean)) c f = .ok b c' f') :
      Operand registry (.upTo registry n) .boolean c f c' := by
    obtain ⟨a, c₁, f₁, h, hb⟩ := of_bind_eq_ok h
    cases hb
    exact .word rfl hw (of_lexeme_eq_ok h)
  obtain h | ⟨-, h⟩ := of_orElse_eq_ok h
  · exact .parens ((scan_upTo n).disjunction) h
  obtain h | ⟨-, h⟩ := of_orElse_eq_ok h
  · exact hword (w := "true") (by decide) h
  obtain h | ⟨-, h⟩ := of_orElse_eq_ok h
  · exact hword (w := "false") (by decide) h
  obtain h | ⟨-, h⟩ := of_orElse_eq_ok h
  · exact .called (of_lexeme_eq_ok h)
  · exact .named (of_lexeme_eq_ok h)

/-- A factor is an operand. -/
theorem operand_of_factor {e : Expr .number}
    (h : factor registry (.upTo registry n) c f = .ok e c' f') :
    Operand registry (.upTo registry n) .number c f c' := by
  obtain h | ⟨-, h⟩ := of_orElse_eq_ok h
  · exact .parens ((scan_upTo n).sum) h
  obtain h | ⟨-, h⟩ := of_orElse_eq_ok h
  · obtain ⟨a, c₁, f₁, h, -⟩ := of_bind_eq_ok h
    obtain ⟨x, hx, hsign⟩ := head_of_number (of_lexeme_eq_ok h)
    refine .token nofun hx ?_ fun hword => ?_
    · rintro rfl
      exact absurd hsign (by decide)
    · rcases hsign with hdigit | rfl | rfl
      · exact hdigit
      · exact absurd hword (by decide)
      · exact absurd hword (by decide)
  obtain h | ⟨-, h⟩ := of_orElse_eq_ok h
  · exact .called (of_lexeme_eq_ok h)
  · exact .named (of_lexeme_eq_ok h)

/-- The operand of a text is an operand. -/
theorem operand_of_text {e : Expr .text}
    (h : operand registry (.upTo registry n) c f = .ok e c' f') :
    Operand registry (.upTo registry n) .text c f c' := by
  obtain h | ⟨-, h⟩ := of_orElse_eq_ok h
  · obtain ⟨_, c₁, f₁, hquote, -⟩ := of_bind_eq_ok (of_lexeme_eq_ok h)
    obtain ⟨xs, hrest, -⟩ := char_eq_ok hquote
    exact .token nofun (by rw [hrest]; rfl) (by decide) (by decide)
  obtain h | ⟨-, h⟩ := of_orElse_eq_ok h
  · exact .called (of_lexeme_eq_ok h)
  · exact .named (of_lexeme_eq_ok h)

/-- A binding that is called returns the category that is asked for. -/
theorem of_called_eq_ok {i : Nat} {name : String} {e : Expr k}
    (h : called registry inner k i name c f = .ok e c' f') :
    ∃ s, registry name = some s ∧ s.result = k := by
  rw [called] at h
  cases hname : registry name with
  | none =>
    rw [hname] at h
    cases h
  | some s =>
    rw [hname] at h
    refine ⟨s, rfl, Classical.byContradiction fun hk => ?_⟩
    cases h.symm.trans (congrFun (congrFun (if_pos hk) c) f)

/-- What a call starts with. -/
theorem of_call_eq_ok {e : Expr k} (h : call registry inner k c f = .ok e c' f') :
    ∃ name c₁ f₁, unreserved c f = .ok name c₁ f₁ ∧ (∃ a c₂ f₂, char '(' c₁ f₁ = .ok a c₂ f₂) ∧
      ∃ s, registry name = some s ∧ s.result = k := by
  rw [call_eq] at h
  obtain ⟨i, _, _, hposition, h⟩ := of_bind_eq_ok h
  cases hposition
  obtain ⟨name, c₁, f₁, hname, h⟩ := of_bind_eq_ok h
  obtain ⟨a, c₂, f₂, hparen, h⟩ := of_bind_eq_ok h
  exact ⟨name, c₁, f₁, hname, ⟨a, c₂, f₂, hparen⟩, of_called_eq_ok h⟩

/-- What a variable is. -/
theorem of_variableOf_eq_ok {e : Expr k} (h : variableOf k c f = .ok e c' f') :
    ∃ name f₁, unreserved c f = .ok name c' f₁ ∧ Misses (char '(') c' f₁ := by
  obtain ⟨i, _, _, hposition, h⟩ := of_bind_eq_ok h
  cases hposition
  obtain ⟨_, c₂, f₂, hname, h⟩ := of_bind_eq_ok h
  cases h
  obtain ⟨name, c₁, f₁, hname, h⟩ := of_bind_eq_ok hname
  obtain ⟨_, _, _, hnot, h⟩ := of_bind_eq_ok h
  cases h
  obtain ⟨rfl, rfl, hmiss⟩ := of_notFollowedBy_eq_ok hnot
  exact ⟨_, _, hname, hmiss⟩

/-! What an operand starts with tells how it is read. -/

/-- A word of the grammar starts like a name. -/
theorem startsName_of_keyword {w a : String} (hw : w ∈ reserved)
    (h : keyword w c f = .ok a c' f') : StartsName c := by
  have hall : reserved.all fun w => w.toList.all Text.isWord &&
      w.toList.head?.any (!·.isDigit) := by decide
  obtain ⟨hword, hdigit⟩ := Bool.and_eq_true_iff.1 (List.all_eq_true.1 hall w hw)
  refine startsName_of_run ?_
  rw [(of_keyword_eq_ok h hword).2]
  simpa [Option.any_eq_true] using hdigit

/-- A name that is no word of the grammar starts like one. -/
theorem startsName_of_unreserved {name : String} (h : unreserved c f = .ok name c' f') :
    StartsName c :=
  startsName_of_run (of_unreserved_eq_ok h).2

/-- What is in parentheses does not start with a name. -/
theorem not_startsName_of_parenthesized {p : Rule α} {a : α} (hp : Covers 0 p)
    (h : parenthesized p c f = .ok a c' f') : ¬StartsName (c.skipWhile Text.isSpace) := by
  obtain ⟨body, xs, hrest, -⟩ := closesBehind_of_parenthesized hp h
  exact fun hstart => hstart.head_ne (x := '(') (by decide) '(' (by rw [hrest]; rfl) rfl

/-- A token whose first character is a digit or no word character does not start a name. -/
theorem not_startsName_of_token {x : Char} (hx : x ∈ c.rest.head?)
    (hname : Text.isWord x → x.isDigit) : ¬StartsName c := by
  rintro ⟨y, hy, hword, hdigit⟩
  rw [Option.mem_unique hy hx] at hword hdigit
  rw [hname hword] at hdigit
  cases hdigit

/-- A word is no name. -/
theorem not_unreserved_of_keyword {w a name : String} (hw : w ∈ reserved)
    (h : keyword w c f = .ok a c₁ f₁) (h' : unreserved c f' = .ok name c₂ f₂) : False := by
  have hall : reserved.all (·.toList.all Text.isWord) := by decide
  obtain ⟨hname, hfree⟩ := name_of_unreserved h'
  rw [(of_keyword_eq_ok h (List.all_eq_true.1 hall w hw)).2, String.ofList_toList] at hname
  exact hfree (hname ▸ hw)

/-- A truth value ends where an operand of another category ends. -/
theorem ends_alike (h : Operand registry inner .boolean c f c₁)
    (h' : Operand registry inner k c f c₂) (hk : k ≠ .boolean) : c₁ = c₂ := by
  -- Operands of different kinds differ in how they start, or in whether a parenthesis is behind
  -- their name.
  cases h with
  | parens hp h =>
    have hnot := not_startsName_of_parenthesized hp h
    cases h' with
    | parens hq h' => exact parenthesized_ends hp hq h h'
    | word hk' => exact absurd hk' hk
    | token _ hx hparen =>
      obtain ⟨body, xs, hrest, -⟩ := closesBehind_of_parenthesized hp h
      rw [hrest] at hx
      cases hx
      exact absurd rfl hparen
    | called h' =>
      obtain ⟨name, _, _, hname, -⟩ := of_call_eq_ok h'
      exact absurd (startsName_of_unreserved hname) hnot
    | named h' =>
      obtain ⟨name, _, hname, -⟩ := of_variableOf_eq_ok h'
      exact absurd (startsName_of_unreserved hname) hnot
  | word _ hw h =>
    have hstarts := startsName_of_keyword hw h
    cases h' with
    | parens hq h' => exact absurd hstarts (not_startsName_of_parenthesized hq h')
    | word hk' => exact absurd hk' hk
    | token _ hx _ hname => exact absurd hstarts (not_startsName_of_token hx hname)
    | called h' =>
      obtain ⟨name, _, _, hname, -⟩ := of_call_eq_ok h'
      exact (not_unreserved_of_keyword hw h hname).elim
    | named h' =>
      obtain ⟨name, _, hname, -⟩ := of_variableOf_eq_ok h'
      exact (not_unreserved_of_keyword hw h hname).elim
  | token hk' => exact absurd rfl hk'
  | called h =>
    obtain ⟨name, _, _, hname, ⟨_, _, _, hparen⟩, s, hs, hresult⟩ := of_call_eq_ok h
    have hstarts := startsName_of_unreserved hname
    cases h' with
    | parens hq h' => exact absurd hstarts (not_startsName_of_parenthesized hq h')
    | word hk' => exact absurd hk' hk
    | token _ hx _ hdigit => exact absurd hstarts (not_startsName_of_token hx hdigit)
    | called h' =>
      obtain ⟨name', _, _, hname', -, s', hs', hresult'⟩ := of_call_eq_ok h'
      cases hname.symm.trans hname'
      cases hs.symm.trans hs'
      exact absurd (hresult'.symm.trans hresult) hk
    | named h' =>
      obtain ⟨name', _, hname', _, _, _, hmiss⟩ := of_variableOf_eq_ok h'
      cases hname.symm.trans hname'
      cases hparen.symm.trans hmiss
  | named h =>
    obtain ⟨name, _, hname, _, _, _, hmiss⟩ := of_variableOf_eq_ok h
    have hstarts := startsName_of_unreserved hname
    cases h' with
    | parens hq h' => exact absurd hstarts (not_startsName_of_parenthesized hq h')
    | word hk' => exact absurd hk' hk
    | token _ hx _ hdigit => exact absurd hstarts (not_startsName_of_token hx hdigit)
    | called h' =>
      obtain ⟨name', _, _, hname', ⟨_, _, _, hparen⟩, -⟩ := of_call_eq_ok h'
      cases hname.symm.trans hname'
      cases hparen.symm.trans hmiss
    | named h' =>
      obtain ⟨name', _, hname', -⟩ := of_variableOf_eq_ok h'
      cases hname.symm.trans hname'
      rfl

/-! ## Relations -/

/-- Two bare variables are compared whatever they are. -/
theorem of_variableComparison_eq_ok {e : Expr .boolean}
    (h : variableComparison c f = .ok e c' f') : ∃ op l r, e = .compareVariables op l r := by
  obtain ⟨_, _, _, -, h⟩ := of_bind_eq_ok h
  obtain ⟨_, _, _, -, h⟩ := of_bind_eq_ok h
  obtain ⟨_, _, _, -, h⟩ := of_bind_eq_ok h
  obtain ⟨l, _, _, -, h⟩ := of_bind_eq_ok h
  obtain ⟨op, _, _, -, h⟩ := of_bind_eq_ok h
  obtain ⟨r, _, _, -, h⟩ := of_bind_eq_ok h
  obtain ⟨_, _, _, -, h⟩ := of_bind_eq_ok h
  obtain ⟨_, _, _, -, h⟩ := of_bind_eq_ok h
  cases h
  exact ⟨op, l, r, rfl⟩

/-- The last two alternatives compare no truth values. -/
theorem not_boolean_of_orElse {p : Rule (Expr .number)} {q : Rule (Expr .text)} {e : Expr .boolean}
    (h : (comparisonOf p <|> comparisonOf q) c f = .ok e c' f') :
    ¬∃ op l r, e = .compare .boolean op l r := by
  rintro ⟨op, l, r, rfl⟩
  obtain h | ⟨-, h⟩ := of_orElse_eq_ok h
  · obtain ⟨_, _, _, _, _, _, _, -, -, -, he⟩ := of_comparisonOf_eq_ok h
    cases he
  · obtain ⟨_, _, _, _, _, _, _, -, -, -, he⟩ := of_comparisonOf_eq_ok h
    cases he

/-- Where no spelling is read, each of them is missed. -/
theorem misses_of_spelled {w : String} :
    {ws : List String} → Misses (spelled ws) c f → w ∈ ws → Misses (symbol w) c f
  | [_], h, hw => List.mem_singleton.1 hw ▸ h
  | _ :: _ :: _, h, hw => (List.mem_cons.1 hw).elim (fun hw => hw ▸ (misses_of_orElse h).1)
    (misses_of_spelled (misses_of_orElse h).2)

/-- Where none of several spellings is next, each of them is missing. -/
theorem misses_operator_of_mem {w : String} {ws : List String} {a : α}
    (h : Misses (operator a ws) c f) (hw : w ∈ ws) (b : β) : Misses (operator b [w]) c f := by
  have hspelled : Misses (lexeme (spelled ws)) c f := misses_of_map (f := fun _ => a) h
  refine Misses.bind ?_ _
  rw [Misses, lexeme_apply] at hspelled ⊢
  by_cases hcolumn : c.reference.column ≤ (c.skipWhile Text.isSpace).column
  · rw [if_pos hcolumn] at hspelled ⊢
    exact misses_of_spelled hspelled hw
  · rw [if_neg hcolumn] at hspelled ⊢
    exact hspelled

/-- A sum is a factor where no arithmetic sign is next. -/
theorem sum_of_factor {e : Expr .number} (h : factor registry inner c f = .ok e c' f')
    (hmiss : ∀ f, Misses arithmeticSign c' f) : sum registry inner c f = .ok e c' f' := by
  have hsign (op : ArithOp) : op.sign ∈ ["+", "-", "*", "/"] := by cases op <;> decide
  have htier (a b : ArithOp) : Misses (tier a b) c' f' :=
    (misses_operator_of_mem (hmiss f') (hsign a) _).orElse
      (misses_operator_of_mem (hmiss f') (hsign b) _)
  have hproduct : product registry inner c f = .ok e c' f' :=
    (bind_eq h).trans (chainRest_of_misses (htier .multiply .divide) e)
  exact (bind_eq hproduct).trans (chainRest_of_misses (htier .add .subtract) e)

/-- Operands that are not compared as truth values are read again, if what is behind the first one
    shows that they are not a truth value alone. -/
theorem booleanReading_of_sign
    (hmiss : Misses (comparisonOf (boolean registry inner)) c f)
    (hsign : ∀ ⦃l c₁ f₁⦄, boolean registry inner c f = .ok l c₁ f₁ →
      (∃ op c₂ f₂, compareSign c₁ f₁ = .ok op c₂ f₂) ∨
        ∃ a c₂ f₂, arithmeticSign c₁ f₁ = .ok a c₂ f₂) :
    ∃ c₁ f₁, booleanReading registry inner c f = .ok none c₁ f₁ := by
  obtain ⟨i, e, g, hmiss⟩ := hmiss
  cases hl : boolean registry inner c f with
  | fatal i r f' =>
    rw [comparisonOf, bind_apply, hl] at hmiss
    cases hmiss
  | miss i e f' => exact ⟨c, f, booleanReading_of_misses ⟨i, e, f', hl⟩⟩
  | ok l c₁ f₁ =>
    obtain ⟨op, c₂, hop⟩ | hop := oblivious_compareSign c₁
    · cases hr : boolean registry inner c₂ f₁ with
      | ok r c₃ f₃ => cases (comparisonOf_eq hl (hop f₁) hr).symm.trans hmiss
      | miss i e f₃ => exact ⟨c₂, f₁, booleanReading_half hl (hop f₁) ⟨i, e, f₃, hr⟩⟩
      | fatal i r f₃ =>
        rw [comparisonOf, bind_eq hl, bind_eq (hop f₁), bind_apply, hr] at hmiss
        cases hmiss
    · obtain ⟨op, c₂, f₂, hcompare⟩ | ⟨a, c₂, f₂, harith⟩ := hsign hl
      · obtain ⟨i, e, g, hno⟩ := hop f₁
        cases hno.symm.trans hcompare
      · exact ⟨c₁, f₁, (booleanReading_alone hl (hop f₁)).trans (unlessArithmetic_of_ok harith)⟩

/-- Behind a truth value that is the start of a comparison of numbers or texts there is a comparison
    sign or an arithmetic one. -/
theorem sign_of_comparison {l : Expr .boolean} {e : Expr .boolean}
    (hl : boolean registry (.upTo registry n) c f = .ok l c₁ f₁)
    (h : (comparisonOf (sum registry (.upTo registry n)) <|>
      comparisonOf (operand registry (.upTo registry n))) c f = .ok e c' f') :
    (∃ op c₂ f₂, compareSign c₁ f₁ = .ok op c₂ f₂) ∨
      ∃ a c₂ f₂, arithmeticSign c₁ f₁ = .ok a c₂ f₂ := by
  have hcompare {op : CompareOp} {c₂ : Cursor} {f f₂ : Facts}
      (h : compareSign c₁ f = .ok op c₂ f₂) : ∃ op c₂ f₂, compareSign c₁ f₁ = .ok op c₂ f₂ := by
    obtain ⟨op, c₂, hop⟩ | hmiss := oblivious_compareSign c₁
    · exact ⟨op, c₂, f₁, hop f₁⟩
    · obtain ⟨i, e, g, hmiss⟩ := hmiss f
      cases hmiss.symm.trans h
  obtain h | ⟨-, h⟩ := of_orElse_eq_ok h
  · obtain ⟨_, c₂, f₂, op, c₃, f₃, _, hsum, hop, -⟩ := of_comparisonOf_eq_ok h
    obtain ⟨_, _, _, hproduct, -⟩ := of_bind_eq_ok hsum
    obtain ⟨a, c₄, f₄, hfactor, -⟩ := of_bind_eq_ok hproduct
    cases ends_alike (operand_of_boolean hl) (operand_of_factor hfactor) nofun
    obtain ⟨a, c₅, hsign⟩ | hmiss := oblivious_arithmeticSign c₁
    · exact .inr ⟨a, c₅, f₁, hsign f₁⟩
    · -- The sum ends with its first factor, so the comparison sign is next.
      cases (sum_of_factor hfactor hmiss).symm.trans hsum
      exact .inl (hcompare hop)
  · obtain ⟨_, c₂, f₂, op, c₃, f₃, _, htext, hop, -⟩ := of_comparisonOf_eq_ok h
    cases ends_alike (operand_of_boolean hl) (operand_of_text htext) nofun
    exact .inl (hcompare hop)

/-- A relation answers what a comparison answers, unless the comparison is one of truth values and
    leaves an arithmetic sign behind. Then its last operand was meant as a number, and a relation
    sees that. -/
theorem relation_of_comparison {e : Expr .boolean}
    (h : comparison registry (.upTo registry n) c f = .ok e c' f') :
    relation registry (.upTo registry n) c f = .ok e c' f' ↔
      ((∃ op l r, e = .compare .boolean op l r) → Misses arithmeticSign c' f') := by
  obtain h | ⟨hvariables, h⟩ := of_orElse_eq_ok h
  · -- Two bare variables are tried first in both.
    obtain ⟨op, l, r, rfl⟩ := of_variableComparison_eq_ok h
    refine iff_of_true (insteadOf_of_some (optional_of_ok h) _) ?_
    rintro ⟨_, _, _, he⟩
    cases he
  rw [relation_of_misses hvariables]
  obtain h | ⟨hbooleans, h⟩ := of_orElse_eq_ok h
  · obtain ⟨l, c₁, f₁, op, c₂, f₂, r, hl, hop, hr, rfl⟩ := of_comparisonOf_eq_ok h
    have hreading := booleanReading_compared hl hop hr
    obtain ⟨a, c₃, hsign⟩ | hsign := oblivious_arithmeticSign c'
    · rw [insteadOf_of_none (hreading.trans (unlessArithmetic_of_ok (hsign f')))]
      refine iff_of_false (fun hanswer => ?_) fun hmiss => ?_
      · exact not_boolean_of_orElse hanswer ⟨op, l, r, rfl⟩
      · obtain ⟨i, e, g, hmiss⟩ := hmiss ⟨op, l, r, rfl⟩
        cases hmiss.symm.trans (hsign f')
    · rw [insteadOf_of_some (hreading.trans (unlessArithmetic_of_misses (hsign f')))]
      exact iff_of_true rfl fun _ => hsign f'
  · -- What is read of truth values is given up.
    obtain ⟨c₁, f₁, hreading⟩ := booleanReading_of_sign hbooleans fun l c₁ f₁ hl =>
      sign_of_comparison hl h
    rw [insteadOf_of_none hreading]
    exact iff_of_true h fun he => absurd he (not_boolean_of_orElse h)

/-- Where a comparison answers, a relation answers the same from the same state: the same comparison
    up to the same place, with the same facts noted. There is one exception. A comparison of truth
    values with an arithmetic sign behind it is not what a relation answers, which reads the
    operands again as numbers. -/
theorem relation_follows_comparison (registry : Registry) {c c' : Cursor} {f f' : Facts}
    {e : Expr .boolean} (h : complete registry (comparison registry) c f = .ok e c' f') :
    complete registry (relation registry) c f = .ok e c' f' ↔
      ((∃ op l r, e = .compare .boolean op l r) → Misses arithmeticSign c' f') :=
  relation_of_comparison h

/-- A comparison of two variables, the second one in a sum. -/
def increment : Cursor := .ofChars "a is b + 1".toList 4

/-- The comparison is one of the variables as truth values, and the sign behind it is left. -/
theorem relation_follows_comparison_increment :
    ∃ e c' f', complete (fun _ => none) (comparison fun _ => none) increment .empty = .ok e c' f' ∧
      c'.rest = " + 1".toList ∧
      (complete (fun _ => none) (relation fun _ => none) increment .empty = .ok e c' f' ↔
        ((∃ op l r, e = .compare .boolean op l r) → Misses arithmeticSign c' f')) := by
  have hrest : (complete (fun _ => none) (comparison fun _ => none) increment
      .empty).outcome.toOption.map (·.2.rest) = some " + 1".toList := by
    decide +kernel
  obtain ⟨e, c', f', hr, hrest⟩ := Reply.of_outcome hrest
  exact ⟨e, c', f', hr, hrest, relation_follows_comparison _ hr⟩

/-- A relation takes the sum as well, so it does not answer all that a comparison answers. -/
theorem comparison_no_relation :
    ¬∀ (c c' : Cursor) (f f' : Facts) (e : Expr .boolean),
      complete (fun _ => none) (comparison fun _ => none) c f = .ok e c' f' →
        complete (fun _ => none) (relation fun _ => none) c f = .ok e c' f' := by
  intro hall
  have hcomparison : (complete (fun _ => none) (comparison fun _ => none) increment
      .empty).outcome.toOption.map (·.2.rest) = some " + 1".toList := by
    decide +kernel
  have hrelation : (complete (fun _ => none) (relation fun _ => none) increment
      .empty).outcome.toOption.map (·.2.rest) = some [] := by
    decide +kernel
  obtain ⟨e, c', f', hr, -⟩ := Reply.of_outcome hcomparison
  rw [hall _ _ _ _ _ hr, ← hr, hcomparison] at hrelation
  cases hrelation

end Grammar

end Dialogue
