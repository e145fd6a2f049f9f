import Dialogue.Proofs.Expr.Concatenation
import Dialogue.Proofs.Grammar.Agree
import Dialogue.Proofs.Grammar.Comparison

/-!
# Segments of a line

A line of text may be read in segments. What the rule makes of a line that goes on behind a segment
is what it makes of the segment alone, then a space, and then what it makes of the rest of the line
(`textLine_split`). White space that starts a segment or ends it would be lost where the segment
stands alone, and a substitution that is not closed in it could not be read there.
-/

namespace Dialogue

open Dialogue.Parser

namespace Text

variable {x : Char} {w r : List Char}

/-- What is trimmed off the end is behind what is left. -/
theorem trimEnd_append (h : trimEnd r ≠ []) : trimEnd (w ++ r) = w ++ trimEnd r := by
  have hne : r.reverse.dropWhile isSpace ≠ [] := fun hnil => h (by rw [trimEnd, hnil]; rfl)
  rw [trimEnd, List.reverse_append, List.dropWhile_append, List.isEmpty_eq_false_iff.2 hne,
    if_neg Bool.false_ne_true, List.reverse_append, List.reverse_reverse]
  rfl

/-- Where no white space is last, nothing is trimmed. -/
theorem trimEnd_of_last (h : ∀ x ∈ w.getLast?, isSpace x = false) : trimEnd w = w := by
  have hdrop : w.reverse.dropWhile isSpace = w.reverse := by
    cases hrev : w.reverse with
    | nil => rfl
    | cons x v =>
      refine List.dropWhile_cons_of_neg (Bool.eq_false_iff.1 (h x ?_))
      rw [List.getLast?_eq_head?_reverse, hrev]
      rfl
  rw [trimEnd, hdrop, List.reverse_reverse]

/-- Something is kept of a text that is not all white space. -/
theorem trimEnd_ne_nil (hmem : x ∈ w) (hx : isSpace x = false) : trimEnd w ≠ [] := by
  intro h
  rw [trimEnd, List.reverse_eq_nil_iff] at h
  have hall : w.reverse.takeWhile isSpace = w.reverse := by
    conv => rhs; rw [← List.takeWhile_append_dropWhile (p := isSpace) (l := w.reverse), h,
      List.append_nil]
  have hspace : isSpace x :=
    List.all_eq_true.1 List.all_takeWhile x (hall ▸ List.mem_reverse.2 hmem)
  rw [hx] at hspace
  cases hspace

end Text

/-- Where what is open was opened in braces, they are closed for nothing to be open. -/
theorem Region.closeBrace_mem {s : List Region} {xs : List Char} (hs : Grounded s)
    (hne : s ≠ []) (h : afterAll s xs = []) : Grammar.closeBrace ∈ xs := by
  induction xs generalizing s with
  | nil => exact absurd h hne
  | cons x xs ih =>
    by_cases hx : x = Grammar.closeBrace
    · exact hx ▸ List.mem_cons_self
    · refine List.mem_cons_of_mem x (ih (hs.after x) (fun hnil => ?_) h)
      cases s with
      | nil => exact hne rfl
      | cons r s =>
        obtain hr | hr | ⟨r', hr⟩ := after_cons r s x
        · rw [hnil] at hr
          subst hr
          obtain rfl : r = .braces := by simpa [Grounded] using hs
          have hclose : x ≠ Region.close .braces := hx
          simp only [after, if_neg hclose] at hnil
          split at hnil
          · cases hnil
          · split at hnil <;> cases hnil
        · rw [hnil] at hr
          cases hr
        · rw [hnil] at hr
          cases hr

/-! ## A segment in two sources -/

/-- The same text is next at two places, before `x` and before `y`. It lies on its line and closes
    all regions that are open, and both lines are indented like their references or more. -/
structure Shared (s : List Region) (t x y : List Char) (c d : Cursor) : Prop where
  /-- The text is next in the first source. -/
  rest : c.rest = t ++ x
  /-- The text is next in the second source. -/
  rest' : d.rest = t ++ y
  /-- No line break is in it. -/
  line : ∀ z ∈ t, Text.isBreak z = false
  /-- No white space ends it. -/
  last : ∀ z ∈ t.getLast?, Text.isSpace z = false
  /-- What is open was opened in braces. -/
  grounded : Region.Grounded s
  /-- It is closed in the text. -/
  closed : Region.afterAll s t = []
  /-- The first line is indented enough. -/
  level : c.reference.column ≤ c.column
  /-- The second line is indented enough. -/
  level' : d.reference.column ≤ d.column

/-- Two places as far before the end of a text that they share. -/
def Alongside (x y : List Char) (c' d' : Cursor) (s : List Region) (c d : Cursor) : Prop :=
  ∃ t, Shared s t x y c d ∧ c.skip t.length = c' ∧ d.skip t.length = d'

section

variable {s : List Region} {t u x y : List Char} {c c' d d' : Cursor} {z : Char}

/-- What both lines share may be skipped. -/
theorem Shared.skip (h : Shared s (t ++ u) x y c d) :
    Shared (Region.afterAll s t) u x y (c.skip t.length) (d.skip t.length) where
  rest := Cursor.rest_skip_append (h.rest.trans (List.append_assoc t u x))
  rest' := Cursor.rest_skip_append (h.rest'.trans (List.append_assoc t u y))
  line z hz := h.line z (List.mem_append_right t hz)
  last z hz := h.last z (by rw [List.getLast?_append, Option.mem_def.1 hz]; rfl)
  grounded := h.grounded.afterAll t
  closed := List.foldl_append.symm.trans h.closed
  level := by
    rw [Cursor.column_skip_append (h.rest.trans (List.append_assoc t u x)) fun z hz =>
      h.line z (List.mem_append_left u hz)]
    exact h.level
  level' := by
    rw [Cursor.column_skip_append (h.rest'.trans (List.append_assoc t u y)) fun z hz =>
      h.line z (List.mem_append_left u hz)]
    exact h.level'

/-- Where something is open more of the text is ahead. -/
theorem Shared.ne_nil (h : Shared s t x y c d) (hs : s ≠ []) : t ≠ [] := by
  rintro rfl
  exact hs h.closed

/-- A character that both lines share may be skipped. -/
theorem Shared.step (h : Shared s (z :: t) x y c d) (hc : c.skip (z :: t).length = c')
    (hd : d.skip (z :: t).length = d') :
    Alongside x y c' d' (Region.after s z) (c.skip 1) (d.skip 1) := by
  refine ⟨t, Shared.skip (t := [z]) h, ?_, ?_⟩
  · rw [Cursor.skip_skip, Nat.add_comm, ← hc, List.length_cons]
  · rw [Cursor.skip_skip, Nat.add_comm, ← hd, List.length_cons]

/-- White space changes nothing in an expression. -/
theorem afterAll_spaces (hs : Region.Holds s) (ht : ∀ z ∈ t, Text.isSpace z) :
    Region.afterAll s t = s := by
  induction t with
  | nil => rfl
  | cons z t ih =>
    obtain ⟨hz, ht⟩ := List.forall_mem_cons.1 ht
    rw [Region.afterAll, List.foldl_cons, Grammar.after_space (.inl hs) hz]
    exact ih ht

/-- Where something is open, all that is seen up to a brace is in the text. -/
theorem Shared.takeWhile (set : Char → Bool) (h : Shared s t x y c d) (hs : s ≠ [])
    (hset : set Grammar.closeBrace = false) :
    c.rest.takeWhile set = t.takeWhile set ∧ d.rest.takeWhile set = t.takeWhile set := by
  have hmem := Region.closeBrace_mem h.grounded hs h.closed
  obtain ⟨v, v', rfl⟩ := List.append_of_mem hmem
  have htake (zs : List Char) :
      (v ++ Grammar.closeBrace :: v' ++ zs).takeWhile set =
        (v ++ Grammar.closeBrace :: v').takeWhile set := by
    have hhead (zs : List Char) :
        (v ++ Grammar.closeBrace :: zs).takeWhile set = v.takeWhile set :=
      takeWhile_append_of_head fun w hw => by cases hw; exact hset
    rw [List.append_assoc, List.cons_append, hhead, hhead]
  exact ⟨h.rest ▸ htake x, h.rest' ▸ htake y⟩

/-- What stands in substitutions is the same. -/
theorem matched_alongside (x y : List Char) (c' d' : Cursor) : Matched (Alongside x y c' d') where
  sight hs := by
    rintro ⟨t, h, -, -⟩
    obtain ⟨hc, hd⟩ := h.takeWhile (!Region.isEnd ·) (Region.ne_nil_of_holds hs) (by decide)
    rw [Cursor.sight, hc, Cursor.sight, hd]
  nil hs := by
    rintro ⟨t, h, -, -⟩
    rw [h.rest, h.rest']
    simp [h.ne_nil hs]
  step hs := by
    rintro ⟨t, h, hc, hd⟩ hrest -
    obtain ⟨z, t, rfl⟩ := List.exists_cons_of_ne_nil (h.ne_nil (Region.ne_nil_of_holds hs))
    rw [h.rest] at hrest
    cases hrest
    exact ⟨_, h.rest', h.step hc hd⟩
  back hs := by
    rintro ⟨t, h, hc, hd⟩ hrest -
    obtain ⟨z, t, rfl⟩ := List.exists_cons_of_ne_nil (h.ne_nil (Region.ne_nil_of_holds hs))
    rw [h.rest'] at hrest
    cases hrest
    exact ⟨_, h.rest⟩
  spaces {s c d} hs := by
    rintro ⟨t, h, hc, hd⟩
    obtain ⟨hcs, hds⟩ := h.takeWhile Text.isSpace (Region.ne_nil_of_holds hs) (by decide)
    have hsplit := List.takeWhile_append_dropWhile (p := Text.isSpace) (l := t)
    have hafter : Region.afterAll s (t.takeWhile Text.isSpace) = s :=
      afterAll_spaces hs (List.all_eq_true.1 List.all_takeWhile)
    rw [← hsplit] at h hc hd
    rw [Cursor.skipWhile, Cursor.skipWhile, hcs, hds]
    refine ⟨t.dropWhile Text.isSpace, hafter ▸ h.skip, ?_, ?_⟩
    · rw [Cursor.skip_skip, ← List.length_append, hc]
    · rw [Cursor.skip_skip, ← List.length_append, hd]
  level _ := by
    rintro ⟨t, h, -, -⟩ -
    exact iff_of_true h.level h.level'
  quoted hs := by
    rintro ⟨t, h, hc, hd⟩ hrest
    obtain ⟨z, t, rfl⟩ := List.exists_cons_of_ne_nil (h.ne_nil (Region.ne_nil_of_quoted hs))
    rw [h.rest] at hrest
    cases hrest
    exact ⟨_, h.rest', h.step hc hd⟩

end

namespace Grammar

variable {inner : Nested} {b w z v x y t : List Char} {c d c' d' : Cursor} {f f' g : Facts}
  {e : Expr .text} {registry : Registry}

/-! ## Lines of text -/

/-- The blanks that a line of text starts with, in one. -/
def lead (b : List Char) : String := if b = [] then "" else " "

/-- Blanks, and the run of characters that a line of text may have behind them. -/
structure Run (b w : List Char) : Prop where
  /-- The blanks come first. -/
  blanks : ∀ x ∈ b, Text.isBlank x
  /-- They are all that are there. -/
  head : ∀ x ∈ w.head?, Text.isBlank x = false
  /-- No line ends in the run, and no substitution starts in it. -/
  plain : ∀ x ∈ w, Text.isBreak x = false ∧ x ≠ openBrace

/-- The blanks and the run are the first things that a line of text takes. -/
theorem Run.taken (hrun : Run b w) (hrest : c.rest = b ++ (w ++ z))
    (hz : ∀ x ∈ z.head?, Text.isBreak x ∨ x = openBrace) (f : Facts) :
    ∃ o : Option (List Char), Parser.optional blanks1 c f = .ok o (c.skip b.length) f ∧
      (if o.isSome then " " else "") = lead b ∧
      takeWhile (fun x => !Text.isBreak x && x ≠ openBrace) (c.skip b.length) f =
        .ok w (c.skip (b ++ w).length) f := by
  have hnext : ∀ x ∈ (w ++ z).head?, Text.isBlank x = false := by
    cases w with
    | cons x w => exact hrun.head
    | nil =>
      intro x hx
      rcases hz x hx with hx | rfl
      · exact Text.not_isBlank_of_isBreak hx
      · rfl
  have hblanks : c.rest.takeWhile Text.isBlank = b := by
    rw [hrest, takeWhile_append_of_head hnext, takeWhile_of_all hrun.blanks]
  have hplain :
      (c.skip b.length).rest.takeWhile (fun x => !Text.isBreak x && x ≠ openBrace) = w := by
    rw [Cursor.rest_skip_append hrest, takeWhile_append_of_head fun x hx => ?_, takeWhile_of_all ?_]
    · intro x hx
      simp [hrun.plain x hx]
    · rcases hz x hx with hx | rfl
      · simp [hx]
      · simp
  have htake : takeWhile (fun x => !Text.isBreak x && x ≠ openBrace) (c.skip b.length) f =
      .ok w (c.skip (b ++ w).length) f := by
    rw [takeWhile, hplain, Cursor.skip_skip, List.length_append]
  rw [Parser.optional, blanks1, takeWhile1, hblanks]
  -- No blanks are read as nothing, and some as one space.
  cases b with
  | nil => exact ⟨none, by rw [List.length_nil, Cursor.skip_zero], rfl, htake⟩
  | cons x b => exact ⟨some (x :: b), rfl, rfl, htake⟩

/-- A line that ends behind the run. -/
theorem textLine_of_end (hrun : Run b w) (hrest : c.rest = b ++ (w ++ z))
    (hz : ∀ x ∈ z.head?, Text.isBreak x) : textLine inner c f = .ok (.literal (k := .text)
      (if Text.trimEnd w = [] then "" else lead b ++ String.ofList (Text.trimEnd w)))
      (c.skip (b ++ w).length) f := by
  have hline : (c.skip (b ++ w).length).line = [] := by
    rw [Cursor.line, Cursor.rest_skip_append (hrest.trans (List.append_assoc b w z).symm)]
    cases z with
    | nil => rfl
    | cons x z => exact List.takeWhile_cons_of_neg (by simp [hz x rfl])
  have heol : wouldMatch eol (c.skip (b ++ w).length) f = .ok true (c.skip (b ++ w).length) f := by
    obtain ⟨-, n, hok, -⟩ | ⟨hne, -⟩ := eol_spec (c.skip (b ++ w).length) f
    · rw [wouldMatch, hok]
    · exact absurd hline hne
  obtain ⟨o, hoptional, hlead, htake⟩ := hrun.taken hrest (fun x hx => .inl (hz x hx)) f
  rw [textLine, bind_eq hoptional, bind_eq htake, bind_eq heol, if_pos rfl, hlead]
  generalize Text.trimEnd w = kept
  cases kept <;> rfl

/-- A line with a substitution behind the run. -/
theorem textLine_of_brace (hrun : Run b w) (hrest : c.rest = b ++ (w ++ openBrace :: z)) :
    textLine inner c f = (do
      let piece ← substitution inner
      let rest ← inner.textLine
      return .concat (.concat (.literal (k := .text) (lead b ++ String.ofList w)) piece) rest :
      Rule (Expr .text)) (c.skip (b ++ w).length) f := by
  have hline : (c.skip (b ++ w).length).line ≠ [] := by
    have hnext := Cursor.rest_skip_append (hrest.trans (List.append_assoc b w _).symm)
    obtain ⟨ys, hys⟩ := Cursor.line_eq_cons hnext (by decide)
    rw [hys]
    exact List.cons_ne_nil _ _
  have heol : wouldMatch eol (c.skip (b ++ w).length) f = .ok false (c.skip (b ++ w).length) f := by
    obtain ⟨hnil, -⟩ | ⟨-, i, e, hmiss⟩ := eol_spec (c.skip (b ++ w).length) f
    · exact absurd hnil hline
    · rw [wouldMatch, hmiss]
  have hbrace : ∀ x ∈ (openBrace :: z).head?, Text.isBreak x ∨ x = openBrace :=
    fun x hx => .inr (Option.mem_some.1 hx).symm
  obtain ⟨o, hoptional, hlead, htake⟩ := hrun.taken hrest hbrace f
  rw [textLine, bind_eq hoptional, bind_eq htake, bind_eq heol, if_neg Bool.false_ne_true, hlead]

/-- A text starts with blanks and a run of characters. -/
theorem exists_run (t : List Char) : ∃ b w z, t = b ++ (w ++ z) ∧ Run b w ∧
    ((∃ z', z = openBrace :: z') ∨ ∀ x ∈ z.head?, Text.isBreak x) := by
  let plain (x : Char) : Bool := !Text.isBreak x && x ≠ openBrace
  refine ⟨t.takeWhile Text.isBlank, (t.dropWhile Text.isBlank).takeWhile plain,
    (t.dropWhile Text.isBlank).dropWhile plain, ?_,
    ⟨List.all_eq_true.1 List.all_takeWhile, fun x hx => ?_, fun x hx => ?_⟩, ?_⟩
  · rw [List.takeWhile_append_dropWhile, List.takeWhile_append_dropWhile]
  · have hhead := @head_dropWhile t Text.isBlank
    refine hhead x ?_
    cases hrest : t.dropWhile Text.isBlank with
    | nil => simp [hrest] at hx
    | cons y ys =>
      rw [hrest, List.takeWhile_cons] at hx
      split at hx
      · exact hx
      · cases hx
  · simpa [plain] using List.all_eq_true.1 List.all_takeWhile x hx
  · cases hz : (t.dropWhile Text.isBlank).dropWhile plain with
    | nil => exact .inr nofun
    | cons y z =>
      have hstop : plain y = false := head_dropWhile y (by rw [hz]; rfl)
      simp only [plain, Bool.and_eq_false_iff, Bool.not_eq_false', decide_eq_false_iff_not,
        Decidable.not_not] at hstop
      obtain hy | rfl := hstop
      · exact .inr fun x hx => Option.mem_some.1 hx ▸ hy
      · exact .inl ⟨z, rfl⟩

/-- Blanks are followed by something where no white space is last. -/
theorem Run.blanks_eq_nil (h : Run b w) (hlast : ∀ x ∈ (b ++ w).getLast?, Text.isSpace x = false)
    (hw : w = []) : b = [] := by
  subst hw
  refine List.getLast?_eq_none_iff.1 (Option.eq_none_iff_forall_not_mem.2 fun x hx => ?_)
  have hspace := hlast x (by rwa [List.append_nil])
  rw [Text.isSpace_of_isBlank (h.blanks x (List.mem_of_getLast? hx))] at hspace
  cases hspace

/-- A space behind a run is part of it, or of the blanks before it. -/
theorem Run.space (h : Run b w) (hlast : ∀ x ∈ (b ++ w).getLast?, Text.isSpace x = false) :
    ∃ b' w', b ++ w ++ [' '] = b' ++ w' ∧ Run b' w' ∧
      lead b' ++ String.ofList w' = lead b ++ String.ofList w ++ " " := by
  cases w with
  | nil =>
    obtain rfl := h.blanks_eq_nil hlast rfl
    refine ⟨[' '], [], rfl, ⟨List.forall_mem_singleton.2 rfl, ?_, List.forall_mem_nil _⟩, rfl⟩
    rintro _ ⟨⟩
  | cons x v =>
    refine ⟨b, x :: v ++ [' '], List.append_assoc _ _ _, ⟨h.blanks, h.head, ?_⟩, ?_⟩
    · exact List.forall_mem_append.2 ⟨h.plain, List.forall_mem_singleton.2 ⟨rfl, by decide⟩⟩
    · rw [String.ofList_append, String.append_assoc]

/-- A run goes on with another one. -/
theorem Run.append {r : List Char} (h : Run b w) (hr : Run [] r) : Run b (w ++ r) := by
  refine ⟨h.blanks, ?_, List.forall_mem_append.2 ⟨h.plain, hr.plain⟩⟩
  cases w with
  | nil => exact hr.head
  | cons x w => exact h.head

/-- What is made of a line that goes on behind a space. -/
theorem textLine_space (hrun : Run b w) (hlast : ∀ x ∈ (b ++ w).getLast?, Text.isSpace x = false)
    (hrest : c.rest = b ++ w ++ ' ' :: v) (hv : ∃ x ∈ v.head?, Text.isSpace x = false)
    (h : textLine inner c f = .ok e c' f') :
    ∃ e', textLine inner (c.skip ((b ++ w).length + 1)) f = .ok e' c' f' ∧
      ∀ rest, e.onto rest = (Expr.literal (k := .text) (lead b ++ String.ofList w)).onto
        ((Expr.literal (k := .text) " ").onto (e'.onto rest)) := by
  obtain ⟨x, hx, hspace⟩ := hv
  obtain ⟨b', w', hsplit, hrun', hlead⟩ := hrun.space hlast
  obtain ⟨b₂, r, z, rfl, hshort, hends⟩ := exists_run v
  -- The line goes on with something else than white space, so a run starts there.
  obtain rfl : b₂ = [] := by
    cases b₂ with
    | nil => rfl
    | cons y b₂ =>
      cases hx
      rw [Text.isSpace_of_isBlank (hshort.blanks x List.mem_cons_self)] at hspace
      cases hspace
  have hfirst : c.rest = b' ++ (w' ++ r ++ z) := by
    rw [hrest, List.append_cons, hsplit]
    simp only [List.append_assoc, List.nil_append]
  have hsecond : (c.skip ((b ++ w).length + 1)).rest = [] ++ (r ++ z) := by
    rw [← Cursor.skip_skip, Cursor.rest_skip_one (Cursor.rest_skip_append hrest)]
  have hplace : (c.skip ((b ++ w).length + 1)).skip ([] ++ r).length =
      c.skip (b' ++ (w' ++ r)).length := by
    have hlength := congrArg List.length hsplit
    simp only [List.length_append, List.length_cons, List.length_nil] at hlength ⊢
    rw [Cursor.skip_skip]
    congr 1
    omega
  have htext (r : List Char) : lead b' ++ String.ofList (w' ++ r) =
      lead b ++ String.ofList w ++ (" " ++ (lead [] ++ String.ofList r)) := by
    rw [String.ofList_append, ← String.append_assoc, hlead, String.append_assoc]
    rfl
  obtain ⟨z, rfl⟩ | hends := hends
  · rw [textLine_of_brace (hrun'.append hshort) hfirst] at h
    rw [textLine_of_brace hshort hsecond, hplace]
    obtain ⟨piece, c₁, f₁, hpiece, h⟩ := of_bind_eq_ok h
    obtain ⟨behind, c₂, f₂, hbehind, h⟩ := of_bind_eq_ok h
    cases h
    refine ⟨_, (bind_eq hpiece).trans (bind_eq hbehind), fun rest => ?_⟩
    simp only [htext, Expr.onto_concat, Expr.onto_literal_append]
  · -- The line is trimmed at its end, but `x` stays, and all that is in front of it.
    have hmem : x ∈ r := by
      cases r with
      | cons y r =>
        cases hx
        exact List.mem_cons_self
      | nil =>
        rw [Text.isSpace_of_isBreak (hends x hx)] at hspace
        cases hspace
    have hkept := Text.trimEnd_ne_nil hmem hspace
    have htrim := Text.trimEnd_append (w := w') hkept
    have hkept' : Text.trimEnd (w' ++ r) ≠ [] := by
      rw [htrim]
      exact List.append_ne_nil_of_right_ne_nil _ hkept
    rw [textLine_of_end (hrun'.append hshort) hfirst hends, if_neg hkept', htrim, htext] at h
    cases h
    rw [textLine_of_end hshort hsecond hends, if_neg hkept, hplace]
    refine ⟨_, rfl, fun rest => ?_⟩
    simp only [Expr.onto_literal_append]

/-- A run that no white space ends stands alone. -/
theorem textLine_alone (hrun : Run b w) (hlast : ∀ x ∈ (b ++ w).getLast?, Text.isSpace x = false)
    (hrest : c.rest = b ++ w ++ z) (hz : ∀ x ∈ z.head?, Text.isBreak x) :
    textLine inner c f = .ok (.literal (k := .text) (lead b ++ String.ofList w))
      (c.skip (b ++ w).length) f := by
  rw [textLine_of_end hrun (hrest.trans (List.append_assoc b w z)) hz]
  cases w with
  | nil =>
    obtain rfl := hrun.blanks_eq_nil hlast rfl
    rfl
  | cons x w =>
    have htrim : Text.trimEnd (x :: w) = x :: w := Text.trimEnd_of_last fun y hy =>
      hlast y (by rw [List.getLast?_append, Option.mem_def.1 hy]; rfl)
    rw [htrim, if_neg (List.cons_ne_nil x w)]

/-- How a text is made of the one of the segment that ends at `c₁`, with `x` behind it. -/
inductive Splits (registry : Registry) (c₁ : Cursor) (e e₁ : Expr .text) (c' : Cursor)
    (f' : Facts) : (x : List Char) → Prop where
  /-- It is the same where nothing is behind the segment. -/
  | last (hc : c' = c₁) (h : ∀ rest, e.onto rest = e₁.onto rest) : Splits registry c₁ e e₁ c' f' []
  /-- Where the line goes on it is followed by a space and the text of the rest of the line. -/
  | space {n : Nat} {f : Facts} {e₂ : Expr .text} {v : List Char}
    (hline : textLine (.upTo registry n) (c₁.skip 1) f = .ok e₂ c' f')
    (h : ∀ rest, e.onto rest = e₁.onto ((Expr.literal (k := .text) " ").onto (e₂.onto rest))) :
    Splits registry c₁ e e₁ c' f' (' ' :: v)

/-- A line that splits does so behind what was read before. -/
theorem Splits.concat {c₁ : Cursor} {e₁ head : Expr .text}
    (h : Splits registry c₁ e e₁ c' f' x) :
    Splits registry c₁ (.concat head e) (.concat head e₁) c' f' x := by
  cases h with
  | last hc h => exact .last hc fun rest => by rw [Expr.onto_concat, h, Expr.onto_concat]
  | space hline h => exact .space hline fun rest => by rw [Expr.onto_concat, h, Expr.onto_concat]

/-- What may stand behind a segment: nothing, or a space and something that is no white space. -/
def GoesOn (x : List Char) : Prop :=
  x = [] ∨ ∃ v, x = ' ' :: v ∧ ∃ z ∈ v.head?, Text.isSpace z = false

/-- A run opens nothing. -/
theorem afterAll_run (hrun : Run b w) : Region.afterAll [] (b ++ w) = [] := by
  have hall : ∀ x ∈ b ++ w, x ≠ openBrace := by
    refine List.forall_mem_append.2 ⟨fun x hx => ?_, fun x hx => (hrun.plain x hx).2⟩
    rintro rfl
    exact absurd (hrun.blanks _ hx) (by decide)
  generalize b ++ w = v at hall
  induction v with
  | nil => rfl
  | cons x v ih =>
    obtain ⟨hx, hv⟩ := List.forall_mem_cons.1 hall
    rw [Region.afterAll, List.foldl_cons, Region.after, if_neg hx]
    exact ih hv

/-- A substitution is read alike in the segment and in the line. -/
theorem agree_substitution_alongside (registry : Registry) (x y : List Char) (c' d' : Cursor)
    (n m : Nat) {D E : List (Found String)} : Agree (Facts.Idle D E)
      (fun c d => ∃ t, Shared [] (openBrace :: t) x y c d ∧ c.skip (openBrace :: t).length = c' ∧
        d.skip (openBrace :: t).length = d')
      (substitution (.upTo registry n)) (substitution (.upTo registry m))
      (Alongside x y c' d' []) := by
  have hR := matched_alongside x y c' d'
  refine agree_substitution hR (concur_upTo hR n m) (agree_char_of ?_ ?_)
  · rintro c d xs ⟨t, h, hc, hd⟩ hrest
    exact ⟨_, h.rest', h.step hc hd⟩
  · rintro c d ys ⟨t, h, -, -⟩ hrest
    exact ⟨_, h.rest⟩

/-- The rest of a line is read in segments if it is where rules are nested. -/
theorem textLine_split_of_nested {n m : Nat} (hx : GoesOn x) (hy : ∀ z ∈ y.head?, Text.isBreak z)
    (hnext : ∀ {t c d f g e c' f'}, Shared [] t x y c d →
      (Nested.upTo registry n).textLine c f = .ok e c' f' →
      ((Nested.upTo registry m).textLine d g).Endless ∨ ∃ e₁ g₁,
        (Nested.upTo registry m).textLine d g = .ok e₁ (d.skip t.length) g₁ ∧
          Splits registry (c.skip t.length) e e₁ c' f' x)
    (hS : Shared [] t x y c d) (h : textLine (.upTo registry n) c f = .ok e c' f') :
    (textLine (.upTo registry m) d g).Endless ∨ ∃ e₁ g₁,
      textLine (.upTo registry m) d g = .ok e₁ (d.skip t.length) g₁ ∧
        Splits registry (c.skip t.length) e e₁ c' f' x := by
  obtain ⟨b, w, z, rfl, hrun, hz⟩ := exists_run t
  obtain ⟨z, rfl⟩ | hz := hz
  · -- A substitution is in the segment, and what is behind it is read in segments.
    have hrest : c.rest = b ++ (w ++ openBrace :: (z ++ x)) := by
      rw [hS.rest]
      simp only [List.append_assoc, List.cons_append]
    have hrest' : d.rest = b ++ (w ++ openBrace :: (z ++ y)) := by
      rw [hS.rest']
      simp only [List.append_assoc, List.cons_append]
    rw [textLine_of_brace hrun hrest] at h
    rw [textLine_of_brace hrun hrest']
    obtain ⟨piece, c₁, f₁, hpiece, h⟩ := of_bind_eq_ok h
    obtain ⟨behind, c₂, f₂, hbehind, h⟩ := of_bind_eq_ok h
    cases h
    rw [← List.append_assoc] at hS
    have hbrace := afterAll_run hrun ▸ hS.skip
    have hsame := agree_substitution_alongside registry x y _ _ n m ⟨z, hbrace, rfl, rfl⟩
      (j := f) (k := g) ⟨rfl, rfl⟩
    rw [hpiece] at hsame
    rw [bind_apply]
    generalize substitution (.upTo registry m) _ g = r at hsame ⊢
    cases hsame with
    | endlessRight => exact .inl ⟨_, _, rfl⟩
    | @ok _ _ d₁ _ g₁ hQ =>
      obtain ⟨u, hu, hc, hd⟩ := hQ
      rw [Cursor.skip_skip, ← List.length_append] at hc hd
      rw [← List.append_assoc, ← hc]
      obtain hend | ⟨e₁, g₂, hok, hsplits⟩ := hnext (g := g₁) hu hbehind
      · exact .inl (hend.bind _)
      · rw [hd] at hok
        exact .inr ⟨_, g₂, bind_eq hok, hsplits.concat⟩
  · -- Nothing but a run of characters is in the segment.
    obtain rfl : z = [] := by
      cases z with
      | nil => rfl
      | cons z zs =>
        have hline := hS.line z (by simp)
        rw [hz z rfl] at hline
        cases hline
    rw [List.append_nil] at hS ⊢
    refine .inr ⟨_, g, textLine_alone hrun hS.last hS.rest' hy, ?_⟩
    obtain rfl | ⟨v, rfl, hv⟩ := hx
    · rw [textLine_alone hrun hS.last hS.rest nofun] at h
      cases h
      exact .last rfl fun _ => rfl
    · obtain ⟨e', hline, honto⟩ := textLine_space hrun hS.last hS.rest hv h
      rw [← Cursor.skip_skip] at hline
      exact .space hline honto

/-- The rest of a line of text is read like a segment of it, a space, and what is behind. -/
theorem textLine_split (hx : GoesOn x) (hy : ∀ z ∈ y.head?, Text.isBreak z) (n m : Nat) :
    ∀ {t c d f g e c' f'}, Shared [] t x y c d →
      textLine (.upTo registry n) c f = .ok e c' f' →
      (textLine (.upTo registry m) d g).Endless ∨ ∃ e₁ g₁,
        textLine (.upTo registry m) d g = .ok e₁ (d.skip t.length) g₁ ∧
          Splits registry (c.skip t.length) e e₁ c' f' x := by
  induction n generalizing m with
  | zero =>
    refine textLine_split_of_nested hx hy fun _ h => ?_
    cases h
  | succ n ih =>
    refine textLine_split_of_nested hx hy fun hS h => ?_
    cases m with
    | zero => exact .inl ⟨_, _, rfl⟩
    | succ m => exact ih m hS h

end Grammar

end Dialogue
