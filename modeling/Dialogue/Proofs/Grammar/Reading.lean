import Dialogue.Proofs.Grammar.Token

/-!
# Texts that are read

A rule *reads* a text if it takes the text, answers the value that is written there and notes the
uses of variables in it, provided that what follows is fit (`ReadsAs`). What follows must not go on
with the last token (`Text.apart`), and behind white space there must be no character that starts
something that the rule would take as well (`Ends`).

A text is put together from others by parentheses (`ReadsAs.parenthesized`) and by operators. Up to
the end of each operand, a chain of operands takes what it has read for the value of the text so far
(`Gathers`): so operators are applied from left to right.
-/

namespace Dialogue

open Dialogue.Parser

namespace Grammar

variable {α β : Type} {c : Cursor} {f : Facts} {gap : Gap} {x : Char} {xs zs behind : List Char}
  {set : List Char}

/-! ## What follows -/

/-- What follows a text: behind white space none of these characters is next, and the last token
    of the text does not go on. -/
structure Ends (set behind zs : List Char) : Prop where
  /-- Behind white space there is another character, or none. -/
  lacks : ∀ x ∈ (zs.dropWhile Text.isSpace).head?, x ∉ set
  /-- No name and no fraction goes on, and nothing is called. -/
  next : ∀ x ∈ zs.head?, x ≠ '(' ∧ x ≠ '.'
  /-- No word goes on. -/
  apart : Text.apart behind zs

namespace Ends

/-- The end of the source ends every operand. -/
theorem nil : Ends set behind [] where
  lacks := by rintro _ ⟨⟩
  next := by rintro _ ⟨⟩
  apart := Text.apart_of_not_isWord (by rintro _ ⟨⟩) behind

/-- A token may follow that starts with another character. -/
theorem token (gap : Gap) (hspace : Text.isSpace x = false) (hset : x ∉ set)
    (hnext : x ≠ '(' ∧ x ≠ '.') (hapart : Text.apart behind (gap.1 ++ x :: xs)) :
    Ends set behind (gap.1 ++ x :: xs) where
  lacks := by
    rw [dropWhile_gap hspace]
    rintro _ ⟨⟩
    exact hset
  next := by
    obtain ⟨cs, hcs⟩ := gap
    cases cs with
    | nil =>
      rintro _ ⟨⟩
      exact hnext
    | cons y ys =>
      rintro _ ⟨⟩
      have hspace := hcs y List.mem_cons_self
      exact ⟨by rintro rfl; exact absurd hspace (by decide),
        by rintro rfl; exact absurd hspace (by decide)⟩
  apart := hapart

/-- A word may follow that is apart. -/
theorem word (gap : Gap) {w : List Char} (hw : w = x :: xs) (hspace : Text.isSpace x = false)
    (hset : x ∉ set) (hnext : x ≠ '(' ∧ x ≠ '.') (hapart : Text.apart behind (gap.1 ++ w))
    (zs : List Char) : Ends set behind (gap.1 ++ w ++ zs) := by
  have hne : gap.1 ++ w ≠ [] :=
    List.append_ne_nil_of_right_ne_nil _ (by rw [hw]; exact List.cons_ne_nil _ _)
  have hbehind : Text.apart behind (gap.1 ++ w ++ zs) := (Text.apart_append_right hne).trans hapart
  rw [hw, List.append_assoc, List.cons_append] at hbehind ⊢
  exact .token gap hspace hset hnext hbehind

/-- Behind a sign no word goes on. -/
theorem sign (gap : Gap) (hspace : Text.isSpace x = false) (hset : x ∉ set)
    (hnext : x ≠ '(' ∧ x ≠ '.') (hword : Text.isWord x = false) :
    Ends set behind (gap.1 ++ x :: xs) := by
  refine .token gap hspace hset hnext (Text.apart_of_not_isWord (fun y hy => ?_) behind)
  obtain ⟨cs, hcs⟩ := gap
  cases cs with
  | nil =>
    cases hy
    exact hword
  | cons z zs =>
    cases hy
    refine Bool.eq_false_iff.2 fun h => ?_
    exact Bool.false_ne_true ((Text.not_isSpace_of_isWord h).symm.trans (hcs y List.mem_cons_self))

/-- What ends at more characters ends at fewer of them. -/
theorem mono {set' : List Char} (h : Ends set behind zs) (hset : set' ⊆ set) :
    Ends set' behind zs where
  lacks x hx hmem := h.lacks x hx (hset hmem)
  next := h.next
  apart := h.apart

/-- Only the last part of the text counts. -/
theorem of_append {ys : List Char} (h : Ends set (behind ++ ys) zs) (hys : ys ≠ []) :
    Ends set ys zs where
  lacks := h.lacks
  next := h.next
  apart := Text.apart_append_left hys ▸ h.apart

end Ends

/-! ## Texts -/

/-- The rule reads the text as a value with these uses of variables, which depend on the offset of
    the text, wherever what follows fits. -/
def ReadsAs (fits : List Char → Prop) (p : Rule α) (text : List Char) (a : α)
    (uses : Nat → List (Found Use)) : Prop :=
  ∀ ⦃c f zs⦄, c.Level → c.rest = text ++ zs → fits zs →
    p c f = .ok a (c.skip text.length) (f.note (uses c.index))

section

variable {fits fits' : List Char → Prop} {p : Rule α} {text text' sign : List Char} {a b : α}
  {uses uses' : Nat → List (Found Use)} {operand : Rule α} {operator : Rule (α → α → α)}
  {g : α → α → α}

/-- A text may be read before less. -/
theorem ReadsAs.mono (h : ReadsAs fits p text a uses) (hfits : ∀ zs, fits' zs → fits zs) :
    ReadsAs fits' p text a uses :=
  fun _ _ zs hc hrest hzs => h hc hrest (hfits zs hzs)

/-- The value of what is read may be mapped. -/
theorem ReadsAs.map {g : α → β} (h : ReadsAs fits p text a uses) :
    ReadsAs fits (g <$> p) text (g a) uses :=
  fun _ _ _ hc hrest hzs => map_eq (h hc hrest hzs)

/-- One text after the other. -/
theorem ReadsAs.bind {q : α → Rule β} {b : β} (h : ReadsAs fits p text a uses)
    (h' : ReadsAs fits' (q a) text' b uses') (hfits : ∀ zs, fits' zs → fits (text' ++ zs)) :
    ReadsAs fits' (p >>= q) (text ++ text') b fun i => uses i ++ uses' (i + byteSize text) := by
  intro c f zs hc hrest hzs
  have hfirst : c.rest = text ++ (text' ++ zs) := by rw [hrest, List.append_assoc]
  rw [bind_eq (h hc hfirst (hfits zs hzs)), h' (hc.skip _) (Cursor.rest_skip_append hfirst) hzs,
    Cursor.index_skip_append hfirst, Cursor.skip_skip, ← List.length_append, ← Facts.note_append]

/-- A sign is read with the gap before it. -/
theorem reads_char (gap : Gap) (hspace : Text.isSpace x = false) :
    ReadsAs (fun _ => True) (lexeme (char x)) (gap.1 ++ [x]) x fun _ => [] := by
  intro c f zs hc hrest _
  rw [lexeme_char_eq hc (hrest.trans (List.append_assoc ..)) hspace, Facts.note_nil]

/-- In parentheses a text is read if it may be followed by the closing one. -/
theorem ReadsAs.parenthesized {gap gap' : Gap} (h : ReadsAs fits p text a uses)
    (hfits : ∀ zs, fits (gap'.1 ++ ')' :: zs)) :
    ReadsAs fits' (parenthesized p) (gap.1 ++ ['('] ++ text ++ gap'.1 ++ [')']) a
      fun i => uses (i + byteSize (gap.1 ++ ['('])) := by
  have hclose : ReadsAs fits' (lexeme (char ')') >>= fun _ => pure a) (gap'.1 ++ [')']) a
      fun _ => [] := ((reads_char gap' rfl).mono fun _ _ => trivial).map
  have hrest : ReadsAs fits' (p >>= fun b => lexeme (char ')') >>= fun _ => pure b)
      (text ++ (gap'.1 ++ [')'])) a fun i => uses i ++ [] :=
    h.bind (q := fun b => lexeme (char ')') >>= fun _ => pure b) hclose fun zs _ =>
      (List.append_assoc gap'.1 [')'] zs).symm ▸ hfits zs
  have hread : ReadsAs fits' (Grammar.parenthesized p) _ a _ :=
    (reads_char gap rfl).bind (q := fun _ => p >>= fun b => lexeme (char ')') >>= fun _ => pure b)
      hrest fun _ _ => trivial
  simpa only [List.nil_append, List.append_nil, List.append_assoc] using hread

/-- The rule misses where the text is, wherever what follows fits. -/
def Refuses (fits : List Char → Prop) (p : Rule α) (text : List Char) : Prop :=
  ∀ ⦃c f zs⦄, c.Level → c.rest = text ++ zs → fits zs → Misses p c f

/-- A text that is refused is refused in parentheses. -/
theorem Refuses.parenthesized {gap gap' : Gap} (h : Refuses fits p text)
    (hfits : ∀ zs, fits (gap'.1 ++ ')' :: zs)) :
    Refuses fits' (parenthesized p) (gap.1 ++ ['('] ++ text ++ gap'.1 ++ [')']) := by
  intro c f zs hc hrest _
  have hopen : c.rest = (gap.1 ++ ['(']) ++ (text ++ (gap'.1 ++ ')' :: zs)) := by
    rw [hrest]
    simp only [List.append_assoc, List.cons_append, List.nil_append]
  have hleft := lexeme_char_eq (j := f) hc (hopen.trans (List.append_assoc ..)) rfl
  exact .after hleft ((h (hc.skip _) (Cursor.rest_skip_append hopen) (hfits zs)).bind _)

/-! ## Chains -/

/-- At the end of the text a chain has accumulated its value, wherever what follows fits. -/
def Gathers (fits : List Char → Prop) (operand : Rule α) (operator : Rule (α → α → α))
    (text : List Char) (a : α) (uses : Nat → List (Found Use)) : Prop :=
  ∀ ⦃c f zs⦄, c.Level → c.rest = text ++ zs → fits zs →
    chainLeft operand operator c f =
      chainRest operand operator a (c.skip text.length) (f.note (uses c.index))

/-- A chain gathers its first operand. -/
theorem ReadsAs.gathers (h : ReadsAs fits operand text a uses) :
    Gathers fits operand operator text a uses :=
  fun _ _ _ hc hrest hzs => bind_eq (h hc hrest hzs)

/-- A chain goes on over an operator and an operand. -/
theorem Gathers.next {fitsSign : List Char → Prop}
    (h : Gathers fits operand operator text a uses)
    (hsign : ReadsAs fitsSign operator sign g fun _ => [])
    (hoperand : ReadsAs fits' operand text' b uses') (hne : sign ≠ [])
    (hfits : ∀ zs, fits' zs → fits (sign ++ (text' ++ zs)))
    (hfitsSign : ∀ zs, fits' zs → fitsSign (text' ++ zs)) :
    Gathers fits' operand operator (text ++ sign ++ text') (g a b)
      fun i => uses i ++ uses' (i + byteSize (text ++ sign)) := by
  intro c f zs hc hrest hzs
  have htext : c.rest = text ++ (sign ++ (text' ++ zs)) := by
    rw [hrest, List.append_assoc, List.append_assoc]
  have hbehind := Cursor.rest_skip_append htext
  have hop := hsign (f := f.note (uses c.index)) (hc.skip _) hbehind (hfitsSign zs hzs)
  have hb := hoperand (f := f.note (uses c.index)) ((hc.skip _).skip _)
    (Cursor.rest_skip_append hbehind) hzs
  rw [Facts.note_nil] at hop
  rw [Cursor.index_skip_append hbehind, Cursor.index_skip_append htext, Nat.add_assoc,
    ← byteSize_append] at hb
  rw [h hc htext (hfits zs hzs), chainRest_eq hop hb]
  · rw [Cursor.skip_skip, Cursor.skip_skip, ← List.length_append, ← List.length_append,
      ← List.append_assoc, ← Facts.note_append]
  · rw [Cursor.skip_skip]
    refine Cursor.remaining_skip_lt ?_ ?_
    · exact Nat.lt_of_lt_of_le (List.length_pos_iff.2 hne) (Nat.le_add_right _ _)
    · rw [hbehind]
      exact List.append_ne_nil_of_left_ne_nil hne _

/-- Where no further operator is next, all of the text is read. -/
theorem Gathers.reads (h : Gathers fits operand operator text a uses)
    (hfits : ∀ zs, fits' zs → fits zs)
    (hmiss : ∀ ⦃c f⦄, fits' c.rest → Misses operator c f) :
    ReadsAs fits' (chainLeft operand operator) text a uses := by
  intro c f zs hc hrest hzs
  rw [h hc hrest (hfits zs hzs)]
  refine chainRest_of_misses (hmiss ?_) a
  rwa [Cursor.rest_skip_append hrest]

end

/-! ## Names -/

section

variable {k : Category} {registry : Registry} {inner : Nested} (gap : Gap) (n : Name)

/-- What follows a name does not go on with it. -/
theorem Ends.name (h : Ends set (gap.1 ++ n.chars) zs) :
    ∀ x ∈ zs.head?, Text.isWord x = false ∧ x ≠ '(' := fun x hx =>
  ⟨Text.not_isWord_of_apart h.apart (n.last_isWord gap.1) x hx, (h.next x hx).1⟩

/-- Where a name is ahead, its first character is. -/
theorem exists_rest_of_name (h : c.rest = gap.1 ++ n.chars ++ zs) :
    ∃ x xs, c.rest = gap.1 ++ x :: (xs ++ zs) ∧ n.chars = x :: xs ∧ Text.isWord x ∧
      x.isDigit = false := by
  obtain ⟨x, xs, hn, hword, hdigit⟩ := n.exists_cons
  exact ⟨x, xs, by rw [h, hn, List.append_assoc]; rfl, hn, hword, hdigit⟩

/-- A token may start with the name. -/
theorem lexeme_of_name {σ : Type} {p : Parser σ α} {j : σ} (hc : c.Level)
    (h : c.rest = gap.1 ++ n.chars ++ zs) : lexeme p c j = p (c.skip gap.1.length) j := by
  obtain ⟨x, xs, hrest, -, hword, -⟩ := exists_rest_of_name gap n h
  exact lexeme_eq hc hrest (Text.not_isSpace_of_isWord hword)

/-- A variable is read, and its use is noted. -/
theorem reads_variable : ReadsAs (Ends set (gap.1 ++ n.chars)) (lexeme (variableOf k))
    (gap.1 ++ n.chars) (.variable (String.ofList n.chars))
    fun i => [⟨i + byteSize gap.1, .typed (String.ofList n.chars) k⟩] := by
  intro c f zs hc h hzs
  have hrest : c.rest = gap.1 ++ (n.chars ++ zs) := h.trans (List.append_assoc ..)
  rw [lexeme_of_name gap n hc h, variableOf_eq (Cursor.rest_skip_append hrest) (hzs.name gap n),
    Cursor.index_skip_append hrest, Cursor.skip_skip, List.length_append]

/-- A name that ends is no call. -/
theorem refuses_call : Refuses (Ends set (gap.1 ++ n.chars)) (lexeme (call registry inner k))
    (gap.1 ++ n.chars) := by
  intro c f zs hc h hzs
  rw [Misses, lexeme_of_name gap n hc h]
  exact misses_call (Cursor.rest_skip_append (h.trans (List.append_assoc ..))) (hzs.name gap n)

end

end Grammar

end Dialogue
