import Dialogue.Proofs.Grammar.Extend
import Dialogue.Proofs.Grammar.Token
import Dialogue.Proofs.Parser.Copy

/-!
# Amounts

The amount of a pause is a sum that stands on no line of text, so nothing ends it but what follows.
In a source that goes on it is still the same, because a unit of time follows.

The parentheses in a sum that answers are closed (`clear_of_factor`), and what stands outside of
them are tokens. So each of its chains is copied (`copies_sum`), up to what follows the last
operand.
-/

namespace Dialogue

open Dialogue.Parser

namespace Grammar

variable {α : Type} {registry : Registry} {inner : Nested} {J : Facts → Facts → Prop}
  {D E : List (Found String)} {source more : List Char} {m n n' : Nat} {c c' d : Cursor}
  {f f' : Facts} {e : Expr .number} {xs : List Char} {base : List String}

/-! ## Tokens that stand on no line of text -/

/-- The first character behind the white space ahead is one of these. -/
def Next (set : List Char) (c : Cursor) : Prop :=
  ∃ x ∈ (c.rest.dropWhile Text.isSpace).head?, x ∈ set

/-- What is next has a first character. -/
theorem Next.ne_nil {set : List Char} (h : Next set c) : (c.skipWhile Text.isSpace).rest ≠ [] := by
  obtain ⟨x, hx, -⟩ := h
  rw [Cursor.rest_skipWhile]
  rintro hnil
  rw [hnil] at hx
  cases hx

/-- What is next may be known less exactly. -/
theorem Next.mono {set set' : List Char} (h : Next set c) (hset : set ⊆ set') : Next set' c := by
  obtain ⟨x, hx, hmem⟩ := h
  exact ⟨x, hx, hset hmem⟩

/-- What is behind the blanks is behind the white space. -/
theorem Next.of_blanks {set : List Char} (hset : ∀ x ∈ set, Text.isSpace x = false)
    (h : ∃ x ∈ (c.skipWhile Text.isBlank).rest.head?, x ∈ set) : Next set c := by
  obtain ⟨x, hx, hmem⟩ := h
  refine ⟨x, ?_, hmem⟩
  obtain ⟨xs, hxs⟩ := List.head?_eq_some_iff.1 hx
  rw [Cursor.rest_skipWhile] at hxs
  rw [← List.takeWhile_append_dropWhile (p := Text.isBlank) (l := c.rest), hxs,
    List.dropWhile_append_of_pos fun y hy =>
      Text.isSpace_of_isBlank (List.all_eq_true.1 List.all_takeWhile y hy),
    List.dropWhile_cons_of_neg (by simp [hset x hmem])]
  rfl

/-- What is next is so if the source goes on. -/
theorem Next.extend {set : List Char} (h : Next set c)
    (hcd : Extend Region.Shuts source more m [] c d) : Next set d := by
  have hext := (hcd.skipWhile h.ne_nil).extended.rest
  obtain ⟨x, hx, hset⟩ := h
  refine ⟨x, ?_, hset⟩
  rw [Cursor.rest_skipWhile, Cursor.rest_skipWhile] at hext
  rw [hext, List.head?_append, Option.mem_def.1 hx]
  rfl

/-- A token may be read behind white space if something is there. -/
theorem agree_lexeme_bare {B : Cursor → Prop} {p q : Rule α} {Q : Cursor → Cursor → Prop}
    (hB : ∀ c, B c → c.rest ≠ [])
    (h : Agree J (fun c d => Extend Region.Shuts source more m [] c d ∧ B c) p q Q) :
    Agree J (fun c d => Extend Region.Shuts source more m [] c d ∧ B (c.skipWhile Text.isSpace))
      (lexeme p) (lexeme q) Q := by
  have hR := aligned_extend Region.tracks_shuts source more m
  have hspaces : Agree J
      (fun c d => Extend Region.Shuts source more m [] c d ∧ B (c.skipWhile Text.isSpace))
      (discard spaces : Rule Unit) (discard spaces)
      fun c d => Extend Region.Shuts source more m [] c d ∧ B c :=
    fun c d _ _ hcd hJ => .ok ⟨hcd.1.skipWhile (hB _ hcd.2), hcd.2⟩ hJ
  refine .bindAny hspaces fun _ _ => .bind ?_ fun _ => h
  exact agree_indentation_of (fun c d h => hR.column h.1 (hB c h.2)) (fun c d h => hR.reference h.1)
    _ _

/-! ## Operands -/

/-- Where an operand may start: what follows a name in parentheses, or none, is closed. -/
structure Clear (c : Cursor) : Prop where
  /-- Something is ahead. -/
  ne_nil : c.rest ≠ []
  /-- The parentheses are closed. -/
  closes {w xs : List Char} : c.rest = w ++ '(' :: xs → (∀ x ∈ w, Text.isWord x) →
    (∀ x ∈ w.head?, x.isDigit = false) → Region.Closes [.parens] xs

/-- A number is clear. -/
theorem clear_of_number {σ : Type} {j j' : σ} {a : Float} (h : number c j = .ok a c' j') :
    Clear c := by
  obtain ⟨x, hx, hsign⟩ := head_of_number h
  obtain ⟨xs, hrest⟩ := List.head?_eq_some_iff.1 hx
  refine ⟨by rw [hrest]; exact List.cons_ne_nil _ _, fun {w zs} hw hword hdigit => ?_⟩
  rw [hrest] at hw
  cases w with
  | nil =>
    obtain ⟨rfl, -⟩ := List.cons.inj hw
    exact absurd hsign (by decide)
  | cons y w =>
    obtain ⟨rfl, -⟩ := List.cons.inj hw
    have hx := hword x List.mem_cons_self
    rcases hsign with hsign | rfl | rfl
    · rw [hdigit x rfl] at hsign
      cases hsign
    · exact absurd hx (by decide)
    · exact absurd hx (by decide)

/-- The parentheses are closed where the rule in them stops. -/
theorem closes_of_scan {p : Rule α} {a : α}
    (h : Scans Region.after (Fits 0) Checked [.parens] p [] Checked) (hrest : c.rest = '(' :: xs)
    (hp : p (c.skip 1) f = .ok a c' f') (hne : c'.rest ≠ []) : Region.Closes [.parens] xs := by
  have hchecked := checked_of_not_leads (Cursor.not_leads_skip_one hrest (by decide))
  obtain ⟨k, hk, rfl, hclosed, -⟩ := (h hchecked hp).1.spelled
  have hxs := Cursor.rest_skip_one hrest
  rw [hxs] at hclosed
  refine ⟨xs.take k, xs.drop k, (List.take_append_drop k xs).symm, ?_, hclosed.symm⟩
  rwa [Cursor.rest_skip, hxs] at hne

/-- What is in parentheses and goes on is clear. -/
theorem clear_of_parenthesized
    (h : parenthesized (Nested.upTo registry n).sum c f = .ok e c' f') (hne : c'.rest ≠ []) :
    Clear (c.skipWhile Text.isSpace) := by
  obtain ⟨_, c₁, f₁, hopen, hbody⟩ := of_bind_eq_ok h
  obtain ⟨xs, hrest, rfl⟩ := char_eq_ok (of_lexeme_eq_ok hopen)
  have hscan : Scans Region.after (Fits 0) Checked [.parens]
      (do let a ← (Nested.upTo registry n).sum; let _ ← lexeme (char ')'); return a : Rule _)
      [] Checked :=
    ((scan_upTo n).sum _ holds_parens).bind fun _ => scans_close.bind fun _ => .pure
  have hcloses := closes_of_scan hscan hrest hbody hne
  refine ⟨by rw [hrest]; exact List.cons_ne_nil _ _, fun {w zs} hw hword _ => ?_⟩
  rw [hrest] at hw
  cases w with
  | nil =>
    obtain rfl := (List.cons.inj hw).2
    exact hcloses
  | cons y w =>
    obtain ⟨rfl, -⟩ := List.cons.inj hw
    exact absurd (hword _ List.mem_cons_self) (by decide)

/-- Behind the name before parentheses they are open. -/
theorem rest_of_unreserved {σ : Type} {j j' : σ} {name : String} {w : List Char}
    (h : unreserved c j = .ok name c' j') (hrest : c.rest = w ++ '(' :: xs)
    (hw : ∀ x ∈ w, Text.isWord x) : c'.rest = '(' :: xs := by
  rw [(of_unreserved_eq_ok h).1, Cursor.rest_skipWhile, hrest, List.dropWhile_append_of_pos hw,
    List.dropWhile_cons_of_neg (by decide)]

/-- A name has a first character. -/
theorem ne_nil_of_unreserved {σ : Type} {j j' : σ} {name : String}
    (h : unreserved c j = .ok name c' j') : c.rest ≠ [] := by
  obtain ⟨x, hx, -⟩ := (of_unreserved_eq_ok h).2
  rintro hnil
  rw [hnil] at hx
  cases hx

/-- A call that goes on is clear. -/
theorem clear_of_call {k : Category} {e : Expr k}
    (h : call registry (.upTo registry n) k c f = .ok e c' f') (hne : c'.rest ≠ []) : Clear c := by
  rw [call_eq] at h
  obtain ⟨i, c₁, f₁, hposition, h⟩ := of_bind_eq_ok h
  obtain ⟨name, c₂, f₂, hname, h⟩ := of_bind_eq_ok h
  obtain ⟨_, c₃, f₃, hopen, hcalled⟩ := of_bind_eq_ok h
  cases hposition
  obtain ⟨xs, hrest, rfl⟩ := char_eq_ok hopen
  have hcloses := closes_of_scan (scans_called (scan_upTo n) _ name) hrest hcalled hne
  refine ⟨ne_nil_of_unreserved hname, fun hw hword _ => ?_⟩
  rw [rest_of_unreserved hname hw hword] at hrest
  cases hrest
  exact hcloses

/-- A variable is no call. -/
theorem clear_of_variableOf {k : Category} {e : Expr k} (h : variableOf k c f = .ok e c' f') :
    Clear c := by
  obtain ⟨i, c₁, f₁, hposition, h⟩ := of_bind_eq_ok h
  obtain ⟨name, c₂, f₂, hvariable, -⟩ := of_bind_eq_ok h
  obtain ⟨name, c₃, f₃, hname, hrest⟩ := of_bind_eq_ok hvariable
  obtain ⟨_, c₄, f₄, hnot, -⟩ := of_bind_eq_ok hrest
  cases hposition
  refine ⟨ne_nil_of_unreserved hname, fun hw hword _ => ?_⟩
  rw [notFollowedBy, char_eq (rest_of_unreserved hname hw hword)] at hnot
  cases hnot

/-- An operand that answers may start there. -/
theorem clear_of_factor (h : factor registry (.upTo registry n) c f = .ok e c' f')
    (hne : c'.rest ≠ []) : Clear (c.skipWhile Text.isSpace) := by
  obtain h | ⟨-, h⟩ := of_orElse_eq_ok h
  · exact clear_of_parenthesized h hne
  obtain h | ⟨-, h⟩ := of_orElse_eq_ok h
  · obtain ⟨_, _, _, hnumber, -⟩ := of_bind_eq_ok h
    exact clear_of_number (of_lexeme_eq_ok hnumber)
  obtain h | ⟨-, h⟩ := of_orElse_eq_ok h
  · exact clear_of_call (of_lexeme_eq_ok h) hne
  · exact clear_of_variableOf (of_lexeme_eq_ok h)

/-- No operand starts with a colon. -/
theorem not_colon_of_factor (h : factor registry inner c f = .ok e c' f') :
    ∀ x ∈ (c.skipWhile Text.isSpace).rest.head?, x ≠ ':' := by
  have hname {c c' : Cursor} {f f' : Facts} {name : String}
      (h : unreserved c f = .ok name c' f') : ∀ x ∈ c.rest.head?, x ≠ ':' := by
    rintro _ hx rfl
    obtain ⟨-, y, hy, -⟩ := of_unreserved_eq_ok h
    obtain ⟨xs, hxs⟩ := List.head?_eq_some_iff.1 hx
    rw [hxs, List.takeWhile_cons_of_neg (by decide)] at hy
    cases hy
  -- An operand is in parentheses, a number, a call or a variable, and each has its own first
  -- character.
  obtain h | ⟨-, h⟩ := of_orElse_eq_ok h
  · obtain ⟨_, c₁, f₁, hopen, -⟩ := of_bind_eq_ok h
    obtain ⟨xs, hrest, -⟩ := char_eq_ok (of_lexeme_eq_ok hopen)
    rw [hrest]
    rintro _ ⟨⟩
    decide
  obtain h | ⟨-, h⟩ := of_orElse_eq_ok h
  · obtain ⟨_, c₁, f₁, hnumber, -⟩ := of_bind_eq_ok h
    obtain ⟨x, hx, hsign⟩ := head_of_number (of_lexeme_eq_ok hnumber)
    rintro _ hy rfl
    rw [← Option.mem_unique hy hx] at hsign
    exact absurd hsign (by decide)
  obtain h | ⟨-, h⟩ := of_orElse_eq_ok h
  · obtain ⟨_, c₁, f₁, hposition, h⟩ := of_bind_eq_ok (of_lexeme_eq_ok h)
    obtain ⟨name, c₂, f₂, hunreserved, -⟩ := of_bind_eq_ok h
    cases hposition
    exact hname hunreserved
  · obtain ⟨_, c₁, f₁, hposition, h⟩ := of_bind_eq_ok (of_lexeme_eq_ok h)
    obtain ⟨name, c₂, f₂, hvariable, -⟩ := of_bind_eq_ok h
    obtain ⟨name, c₃, f₃, hunreserved, -⟩ := of_bind_eq_ok hvariable
    cases hposition
    exact hname hunreserved

/-- Parentheses may be opened where they are closed. -/
theorem agree_open_bare :
    Agree J (fun c d => Extend Region.Shuts source more m [] c d ∧
        ∀ xs, c.rest = '(' :: xs → Region.Closes [.parens] xs)
      (char '(' : Rule Char) (char '(') (Extend Region.Shuts source more m [.parens]) := by
  refine agree_char_of (fun c d xs ⟨h, hcloses⟩ hrest => ?_) fun c d ys ⟨h, _⟩ hrest => ?_
  · have hne := h.tail_ne_nil hrest (by decide)
    have hskip := h.skip_one hrest hne fun hne => absurd rfl hne
    refine ⟨xs ++ more, by rw [h.extended.rest, hrest]; rfl, hskip.within fun _ => ?_⟩
    rw [Cursor.rest_skip_one hrest]
    exact hcloses xs hrest
  · obtain ⟨zs, hline⟩ := Cursor.line_eq_cons hrest (by decide)
    exact Cursor.rest_eq_cons (h.extended.line.trans hline)

/-- A factor that is clear agrees in a source that goes on. -/
theorem agree_factor : Agree (Facts.Idle D E)
    (fun c d => Extend Region.Shuts source more m [] c d ∧ Clear (c.skipWhile Text.isSpace))
    (factor registry (.upTo registry n)) (factor registry (.upTo registry n'))
    (Extend Region.Shuts source more m []) := by
  have hR := aligned_extend Region.tracks_shuts source more m
  have hconcur : (Nested.upTo registry n).Concur (Extend Region.Shuts source more m) D E
    (.upTo registry n') := concur_upTo hR.matched n n'
  have hne : ∀ c, Clear c → c.rest ≠ [] := fun _ h => h.ne_nil
  -- What a parenthesis opens here is closed in the source, so both are in parentheses behind it.
  have hopen : Agree (Facts.Idle D E)
      (fun c d => Extend Region.Shuts source more m [] c d ∧ Clear (c.skipWhile Text.isSpace))
      (lexeme (char '(') : Rule Char) (lexeme (char '('))
      (Extend Region.Shuts source more m [.parens]) := by
    refine agree_lexeme_bare hne (agree_open_bare.pre fun c d h => ⟨h.1, fun xs hrest => ?_⟩)
    exact h.2.closes (w := []) hrest (List.forall_mem_nil _) (by rintro _ ⟨⟩)
  have hnumber : Agree (Facts.Idle D E) (Extend Region.Shuts source more m []) number number
      (Extend Region.Shuts source more m []) :=
    agree_onLine hR (ofSight_number fun _ => not_isBreak_of_class (by decide) (by decide))
      (spans_number fun _ h => h) (by decide)
  have hcall : Agree (Facts.Idle D E)
      (fun c d => Extend Region.Shuts source more m [] c d ∧ Clear c)
      (call registry (.upTo registry n) .number) (call registry (.upTo registry n') .number)
      (Extend Region.Shuts source more m []) := by
    rw [call_eq, call_eq]
    refine Agree.bindAny .position fun i i' => .bind ?_ fun name =>
      agree_open_bare.bind fun _ => agree_called hR.matched hconcur i i' name
    have hname := agree_plain (J := Facts.Idle D E) hR ofSight_unreserved.line spans_unreserved
    refine (hname.pre fun _ _ h => h.1).answers fun c d j name c' j' h hr xs hrest => ?_
    obtain ⟨rfl, x, hx, hdigit⟩ := of_unreserved_eq_ok hr
    have hsplit := List.takeWhile_append_dropWhile (p := Text.isWord) (l := c.rest)
    rw [← Cursor.rest_skipWhile, hrest] at hsplit
    refine h.2.closes hsplit.symm (List.all_eq_true.1 List.all_takeWhile) fun y hy => ?_
    rwa [Option.mem_unique hy hx]
  have hvariable : Agree (Facts.Idle D E) (Extend Region.Shuts source more m [])
      (variableOf .number) (variableOf .number) (Extend Region.Shuts source more m []) :=
    Agree.bindAny .position fun _ _ =>
      (agree_plain hR ofSight_variableName.line spans_variableName).bind fun _ =>
        Agree.bind (agree_record (fun _ => rfl) fun _ => rfl) fun _ => .pure
  refine (agree_parenthesized hR.matched hconcur.sum hopen).orElse <| .orElse ?_ <| .orElse ?_ ?_
  · exact (agree_lexeme_bare hne (hnumber.pre fun _ _ h => h.1)).map
  · exact agree_lexeme_bare hne hcall
  · exact agree_lexeme_bare hne (hvariable.pre fun _ _ h => h.1)

/-! ## Sums and pauses -/

/-- An operator that is read is next. -/
theorem next_of_tier {a b : ArithOp} {op : Expr .number → Expr .number → Expr .number}
    (h : tier a b c f = .ok op c' f') : Next [a.char, b.char] c := by
  refine Classical.byContradiction fun hnext => ?_
  obtain ⟨i, e, k, hmiss⟩ : Misses (tier a b) c f := by
    refine Misses.orElse (misses_operator (fun x hx hop => hnext ⟨x, hx, ?_⟩) _)
      (misses_operator (fun x hx hop => hnext ⟨x, hx, ?_⟩) _)
    · exact hop ▸ List.mem_cons_self
    · exact hop ▸ List.mem_cons_of_mem _ List.mem_cons_self
  rw [hmiss] at h
  cases h

/-- No operator is next where something else is. -/
theorem Next.misses_tier {a b : ArithOp} {set : List Char} (h : Next set c)
    (ha : a.char ∉ set) (hb : b.char ∉ set) (f : Facts) : Misses (tier a b) c f := by
  obtain ⟨x, hx, hset⟩ := h
  refine Misses.orElse (misses_operator (fun y hy hop => ha ?_) _)
    (misses_operator (fun y hy hop => hb ?_) _)
  · rwa [← hop, Option.mem_unique hy hx]
  · rwa [← hop, Option.mem_unique hy hx]

/-- Operands with operators of one rank between them. -/
theorem copies_rank {a b : ArithOp} {set : List Char} {p q : Rule (Expr .number)}
    (h : Copies (Facts.Idle D E) (Extend Region.Shuts source more m [])
      (Next (a.char :: b.char :: set)) p q) (ha : a.char ∉ set) (hb : b.char ∉ set) :
    Copies (Facts.Idle D E) (Extend Region.Shuts source more m []) (Next set)
      (chainLeft p (tier a b)) (chainLeft q (tier a b)) := by
  have hR := aligned_extend Region.tracks_shuts source more m
  have hsign (op : ArithOp) : Agree (Facts.Idle D E)
      (fun c d => Extend Region.Shuts source more m [] c d ∧ (c.skipWhile Text.isSpace).rest ≠ [])
      (operator (α := Expr .number → Expr .number → Expr .number) (.arith op) [op.sign])
      (operator (.arith op) [op.sign]) (Extend Region.Shuts source more m []) := by
    refine (agree_lexeme_bare (fun _ h => h) ?_).bind fun _ => .pure
    refine (agree_plain hR ?_ ?_).pre fun _ _ h => h.1
    · exact (ofSight_spelled _ (by cases op <;> decide)).line
    · exact spans_spelled _ (by cases op <;> decide)
  refine (h.mono fun c hc => ?_).chainLeft (B := Next [a.char, b.char]) ?_
    (fun _ _ _ _ _ => next_of_tier) fun c d k hcd hc => (hc.extend hcd).misses_tier ha hb k
  · obtain hc | hc := hc
    · exact hc.mono fun x hx => List.mem_cons_of_mem _ (List.mem_cons_of_mem _ hx)
    · exact hc.mono fun x hx => List.mem_append_left set hx
  · exact .of_agree ((hsign a).orElse (hsign b)) fun c d j op c' j' hcd hr _ =>
      ⟨hcd, (next_of_tier hr).ne_nil⟩

/-- A factor is copied up to what follows. -/
theorem copies_factor {set : List Char} :
    Copies (Facts.Idle D E) (Extend Region.Shuts source more m []) (Next set)
      (factor registry (.upTo registry n)) (factor registry (.upTo registry n')) := by
  refine .of_agree agree_factor fun c d j e c' j' hcd hr hnext => ⟨hcd, clear_of_factor hr ?_⟩
  intro hnil
  exact hnext.ne_nil (by rw [Cursor.rest_skipWhile, hnil]; rfl)

/-- A sum is copied up to what follows, if that is no operator. -/
theorem copies_sum {set : List Char} (hset : ∀ op : ArithOp, op.char ∉ set) :
    Copies (Facts.Idle D E) (Extend Region.Shuts source more m []) (Next set)
      (sum registry (.upTo registry n)) (sum registry (.upTo registry n')) := by
  have hproduct : Copies (Facts.Idle D E) (Extend Region.Shuts source more m [])
      (Next ('+' :: '-' :: set)) (product registry (.upTo registry n))
      (product registry (.upTo registry n')) := by
    refine copies_rank (a := .multiply) (b := .divide) copies_factor ?_ ?_
    all_goals
      intro hm
      simp only [List.mem_cons] at hm
      rcases hm with hm | hm | hm
      · cases hm
      · cases hm
      · exact hset _ hm
  exact copies_rank (a := .add) (b := .subtract) hproduct (hset _) (hset _)

/-- A unit of time starts with one of two letters. -/
theorem next_of_timeUnit {unit : Float} (h : timeUnit c f = .ok unit c' f') :
    ∃ x ∈ c.rest.head?, x ∈ ['m', 's'] := by
  have hword {w a : String} {c' : Cursor} {f' : Facts} (h : keyword w c f = .ok a c' f')
      (hw : w.toList.all Text.isWord ∧ w.toList.head?.any (['m', 's'].contains ·)) :
      ∃ x ∈ c.rest.head?, x ∈ ['m', 's'] := by
    obtain ⟨x, hx, hset⟩ := (Option.any_eq_true _ _).1 hw.2
    refine ⟨x, ?_, List.contains_iff_mem.1 hset⟩
    rw [← List.takeWhile_append_dropWhile (p := Text.isWord) (l := c.rest),
      (of_keyword_eq_ok h hw.1).2, List.head?_append, hx]
    rfl
  have hwords {w w' : String} {x : Float} {g : String → Float}
      (h : (g <$> (keyword w <|> keyword w') : Rule Float) c f = .ok x c' f')
      (hw : w.toList.all Text.isWord ∧ w.toList.head?.any (['m', 's'].contains ·))
      (hw' : w'.toList.all Text.isWord ∧ w'.toList.head?.any (['m', 's'].contains ·)) :
      ∃ x ∈ c.rest.head?, x ∈ ['m', 's'] := by
    obtain ⟨_, _, _, h, -⟩ := of_bind_eq_ok h
    exact (of_orElse_eq_ok h).elim (hword · hw) fun h => hword h.2 hw'
  obtain h | ⟨-, h⟩ := of_orElse_eq_ok h
  · exact hwords h (by decide) (by decide)
  obtain h | ⟨-, h⟩ := of_orElse_eq_ok h
  · exact hwords h (by decide) (by decide)
  · exact hwords h (by decide) (by decide)

/-- Behind the amount of a pause the unit is next. -/
theorem copies_pause :
    Copies (Facts.Idle D E) (Extend Region.Shuts source more m []) (fun _ => True)
      (pause registry (.upTo registry n)) (pause registry (.upTo registry n')) := by
  have hR := aligned_extend Region.tracks_shuts source more m
  have hunit (amount : Expr .number) : Agree (Facts.Idle D E) (Extend Region.Shuts source more m [])
      (do
        let _ ← blanks
        let unit ← timeUnit
        return Node.pause (Expr.arith .multiply amount (.literal (k := .number) unit)).simplify)
      (do
        let _ ← blanks
        let unit ← timeUnit
        return Node.pause (Expr.arith .multiply amount (.literal (k := .number) unit)).simplify)
      (Extend Region.Shuts source more m []) :=
    (agree_blanks hR).bind fun _ => (agree_timeUnit hR).bind fun _ => .pure
  refine .bind (.of_agree (agree_keyword hR (by decide)) fun _ _ _ _ _ _ h _ _ => h) (fun _ => ?_)
    fun _ _ _ _ _ _ _ _ => trivial
  refine .bind (.of_agree (agree_blanks1 hR) fun _ _ _ _ _ _ h _ _ => h) (fun _ => ?_)
    fun _ _ _ _ _ _ _ _ => trivial
  -- No operator starts like a unit, so the amount ends where the unit starts.
  have hunits (op : ArithOp) : op.char ∉ ['m', 's'] := by cases op <;> decide
  refine .bind (copies_sum hunits)
    (fun amount => .of_agree (hunit amount) fun _ _ _ _ _ _ h _ _ => h) ?_
  intro amount c f node c' f' hr _
  obtain ⟨_, c₁, f₁, hblanks, hr⟩ := of_bind_eq_ok hr
  obtain ⟨unit, c₂, f₂, hunit, -⟩ := of_bind_eq_ok hr
  cases hblanks
  refine .of_blanks (fun x hx => ?_) (next_of_timeUnit hunit)
  obtain rfl | hx := List.mem_cons.1 hx
  · rfl
  · obtain rfl := List.mem_singleton.1 hx
    rfl

/-- A pause is followed wherever it answers. -/
theorem follows_pause : Follows base (Extend Region.Shuts source more m [])
    (pause registry (.upTo registry n)) (pause registry (.upTo registry n')) Eq
    (Extend Region.Shuts source more m []) Never := by
  intro c d f g a c' f' hcd hids hr _
  have hcopies : Copies (Facts.Idle f.declared g.declared) (Extend Region.Shuts source more m [])
      (fun _ => True) (pause registry (.upTo registry n)) (pause registry (.upTo registry n')) :=
    copies_pause
  have h := hcopies hcd ⟨rfl, rfl⟩ hr trivial
  obtain hend | ⟨d', g', hd, hQ, hids'⟩ := alike_ok h hids
  · exact .inr (.inl hend)
  · exact .inr (.inr ⟨a, d', g', hd, rfl, hQ, hids'⟩)

end Grammar

end Dialogue
