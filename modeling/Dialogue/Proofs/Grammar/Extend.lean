import Dialogue.Proofs.Cursor.Extend
import Dialogue.Proofs.Grammar.Follow
import Dialogue.Proofs.Parser.Misses

/-!
# Statements of a source that goes on

A source that ends with a line break is read alike where it stands before another one. Up to its
end all that depends on a single line is the same in both. Where white space is taken the one
source may end, and the other one goes on. So an expression is read alike if it is known to be
closed in the source itself (`extend`), as it is if the line of text that it stands in answers
there (`Region.Ends`).

The lines of a text end at the end of the source, and the other source starts with a line that is
not indented, which is no part of a text or a passage (`inStep_extend`). Only where nothing was said
before the end of the source, what is said is the first line of the other one.
-/

namespace Dialogue

open Dialogue.Parser

/-! ## Regions that are closed -/

namespace Region

/-- All regions are closed, and something is behind. -/
def Closes (s : List Region) (cs : List Char) : Prop :=
  ∃ w zs, cs = w ++ zs ∧ zs ≠ [] ∧ afterAll s w = []

/-- What is open is closed. -/
def Shuts (s : List Region) (cs : List Char) : Prop := s ≠ [] → Closes s cs

/-- A line ends where all regions are closed. -/
def Ends (s : List Region) (cs : List Char) : Prop :=
  ∃ w x zs, cs = w ++ x :: zs ∧ Text.isBreak x ∧ afterAll s w = []

/-- What is known of the text ahead in some regions stays known over its characters, and in a
    region something is behind them. -/
structure Tracks (K : List Region → List Char → Prop) : Prop where
  /-- A character may be taken in a region, and on the line itself if it is no brace. -/
  take {s : List Region} {x : Char} {cs : List Char} : K s (x :: cs) →
    s ≠ [] ∨ Text.isBreak x = false ∧ x ≠ Grammar.openBrace → K (after s x) cs
  /-- In a region it is not the last one. -/
  more {s : List Region} {cs : List Char} : K s cs → s ≠ [] → cs.tail ≠ []

variable {s : List Region} {x : Char} {w cs zs : List Char}
  {K : List Region → List Char → Prop}

/-- What ends is closed. -/
theorem Ends.closes (h : Ends s cs) : Closes s cs := by
  obtain ⟨w, x, zs, hcs, -, hw⟩ := h
  exact ⟨w, x :: zs, hcs, List.cons_ne_nil x zs, hw⟩

/-- Behind a character, what was closed is so still. -/
theorem Closes.tail (h : Closes s (x :: cs)) (hs : s ≠ []) : Closes (after s x) cs := by
  obtain ⟨w, zs, hcs, hzs, hw⟩ := h
  cases w with
  | nil => exact absurd hw hs
  | cons y w =>
    obtain ⟨rfl, rfl⟩ := List.cons.inj hcs
    exact ⟨w, zs, rfl, hzs, hw⟩

/-- What is closed goes on if something is open. -/
theorem Closes.tail_ne_nil (h : Closes s cs) (hs : s ≠ []) : cs.tail ≠ [] := by
  obtain ⟨w, zs, rfl, hzs, hw⟩ := h
  cases w with
  | nil => exact absurd hw hs
  | cons y w => exact fun hnil => hzs (List.append_eq_nil_iff.1 hnil).2

/-- What shuts is told character by character. -/
theorem tracks_shuts : Tracks Shuts where
  take {s x cs} h hx hne := by
    by_cases hs : s = []
    · subst hs
      rw [after, if_neg (hx.resolve_left fun h => h rfl).2] at hne
      exact absurd rfl hne
    · exact (h hs).tail hs
  more h hs := (h hs).tail_ne_nil hs

/-- Behind a character of the line, what ends does so still. -/
theorem Ends.take (h : Ends s (x :: cs)) (hx : s ≠ [] ∨ Text.isBreak x = false) :
    Ends (after s x) cs := by
  obtain ⟨w, y, zs, hcs, hy, hw⟩ := h
  cases w with
  | nil =>
    obtain ⟨rfl, rfl⟩ := List.cons.inj hcs
    rcases hx with hs | hx
    · exact absurd hw hs
    · rw [hx] at hy
      cases hy
  | cons z w =>
    obtain ⟨rfl, rfl⟩ := List.cons.inj hcs
    exact ⟨w, y, zs, rfl, hy, hw⟩

/-- What ends is told character by character. -/
theorem tracks_ends : Tracks Ends where
  take h hx := h.take (hx.imp_right (·.1))
  more h hs := h.closes.tail_ne_nil hs

/-- White space in a region is not the end. -/
theorem Tracks.spaces (hK : Tracks K) (hs : Holds s) (h : K s cs) :
    cs.dropWhile Text.isSpace ≠ [] ∧ K s (cs.dropWhile Text.isSpace) := by
  induction cs with
  | nil => exact absurd rfl (hK.more h (Region.ne_nil_of_holds hs))
  | cons x cs ih =>
    cases hx : Text.isSpace x with
    | true =>
      rw [List.dropWhile_cons_of_pos hx]
      refine ih ?_
      have hnext := hK.take h (.inl (Region.ne_nil_of_holds hs))
      rwa [Grammar.after_space (.inl hs) hx] at hnext
    | false =>
      rw [List.dropWhile_cons_of_neg (by simp [hx])]
      exact ⟨List.cons_ne_nil x cs, h⟩

/-- The last character acts last on what is open. -/
theorem afterAll_concat (s : List Region) (w : List Char) (x : Char) :
    afterAll s (w ++ [x]) = after (afterAll s w) x := by
  rw [afterAll, List.foldl_append]
  rfl

/-- What a backslash is for stands in a quote, so it is not the outermost region. -/
theorem getLast?_after (h : s.getLast? ≠ some escape) : (after s x).getLast? ≠ some escape := by
  have hcons {s : List Region} {r r' : Region} (h : (r :: s).getLast? ≠ some escape) :
      (r' :: r :: s).getLast? ≠ some escape := by rwa [List.getLast?_cons_cons]
  have htail {s : List Region} {r : Region} (h : (r :: s).getLast? ≠ some escape) :
      s.getLast? ≠ some escape := by
    cases s with
    | nil => simp
    | cons q s => rwa [List.getLast?_cons_cons] at h
  -- Only the innermost region changes, and it is the outermost one only where it is alone.
  match s with
  | [] =>
    rw [after]
    split <;> simp
  | .escape :: s => exact htail h
  | .quotes :: s =>
    rw [after]
    split
    · exact hcons h
    · split
      · exact hcons h
      · split
        · exact htail h
        · exact h
  | .braces :: s | .parens :: s =>
    simp only [after]
    split
    · exact hcons h
    · split
      · exact hcons h
      · split
        · exact htail h
        · exact h

/-- An escape is opened inside of quotes only, so never at the bottom. -/
theorem getLast?_afterAll (h : s.getLast? ≠ some escape) (w : List Char) :
    (afterAll s w).getLast? ≠ some escape := by
  induction w generalizing s with
  | nil => exact h
  | cons x w ih => exact ih (getLast?_after h)

/-- No line break closes a region. -/
theorem eq_nil_of_after_break (hx : Text.isBreak x) (hs : s.getLast? ≠ some escape)
    (h : after s x = []) : s = [] := by
  have hne : x ∉ ['"', '(', ')', Grammar.openBrace, Grammar.closeBrace, '\\'] := by
    intro hm
    simp only [List.mem_cons, List.not_mem_nil, or_false] at hm
    rcases hm with rfl | rfl | rfl | rfl | rfl | rfl <;> cases hx
  match s with
  | [] => rfl
  | .escape :: s =>
    obtain rfl : s = [] := h
    exact absurd rfl hs
  | .quotes :: s => simp_all [after]
  | .braces :: s | .parens :: s => simp_all [after, close]

/-- Where all regions are closed behind a text that ends with a line break, a line ends there. -/
theorem ends_of_afterAll (hx : ∃ x ∈ cs.getLast?, Text.isBreak x) (h : afterAll [] cs = []) :
    Ends [] cs := by
  obtain ⟨x, hx, hbreak⟩ := hx
  obtain ⟨w, rfl⟩ := List.getLast?_eq_some_iff.1 hx
  refine ⟨w, x, [], rfl, hbreak, ?_⟩
  rw [afterAll_concat] at h
  exact eq_nil_of_after_break hbreak (getLast?_afterAll (by simp) w) h

end Region

/-! ## Places in step -/

/-- Places of a source and of the same one with more behind it, with references of a column. Of the
    text ahead, in the regions that the place lies in, `K` is known. -/
structure Extend (K : List Region → List Char → Prop) (source more : List Char) (m : Nat)
    (s : List Region) (c d : Cursor) : Prop where
  /-- The places are the same. -/
  extended : c.Extended more d
  /-- The first one is in the source. -/
  source : c.source = source
  /-- The line of its reference has the column. -/
  reference : c.reference.column = m
  /-- So has that of the second one. -/
  reference' : d.reference.column = m
  /-- This is known of the text. -/
  known : K s c.rest

section

variable {K : List Region → List Char → Prop} {source more : List Char} {m : Nat}
  {s : List Region} {c d : Cursor} {x : Char} {xs : List Char}

/-- Skipping does not change the source. -/
theorem Cursor.source_skip (n : Nat) (c : Cursor) : (c.skip n).source = c.source :=
  (ahead_skip n c).source_eq

/-- Other regions, of which something else is known. -/
theorem Extend.within {K' : List Region → List Char → Prop} {s' : List Region}
    (h : Extend K source more m s c d) (hknown : K' s' c.rest) : Extend K' source more m s' c d :=
  ⟨h.extended, h.source, h.reference, h.reference', hknown⟩

/-- On the line itself nothing need be known. -/
theorem Extend.bare (h : Extend K source more m [] c d) :
    Extend Region.Shuts source more m [] c d :=
  h.within fun hne => absurd rfl hne

/-- A character may be taken if it is not the last one. -/
theorem Extend.skip_one (h : Extend K source more m s c d) (hrest : c.rest = x :: xs)
    (hne : xs ≠ []) (hknown : K (Region.after s x) xs) :
    Extend K source more m (Region.after s x) (c.skip 1) (d.skip 1) := by
  have hxs := Cursor.rest_skip_one hrest
  exact ⟨h.extended.skip (by rwa [hxs]), (c.source_skip 1).trans h.source, h.reference,
    h.reference', by rwa [hxs]⟩

/-- A source that ends with a line break goes on behind other characters. -/
theorem Extend.tail_ne_nil (h : Extend K source more m s c d) (hrest : c.rest = x :: xs)
    (hx : Text.isBreak x = false) : xs ≠ [] := by
  rw [← Cursor.rest_skip_one hrest]
  exact (h.extended.skip_one hrest hx).ne_nil

/-- A source and the longer one are read in step. -/
theorem aligned_extend (hK : Region.Tracks K) (source more : List Char) (m : Nat) :
    Aligned (Extend K source more m) where
  line h := h.extended.line
  nil {s c d} h := by
    have hc := h.extended.ne_nil
    refine iff_of_false hc ?_
    rw [h.extended.rest]
    exact fun hnil => hc (List.append_eq_nil_iff.1 hnil).1
  step {s c d x xs} h hline hx := by
    obtain ⟨ys, hrest⟩ := Cursor.rest_eq_cons hline
    have hbreak : Text.isBreak x = false :=
      Cursor.not_isBreak_of_line (c := c) (by rw [hline]; exact List.mem_cons_self)
    refine h.skip_one hrest (h.tail_ne_nil hrest hbreak) ?_
    exact hK.take (hrest ▸ h.known) (hx.imp_right fun hx => ⟨hbreak, hx⟩)
  spaces {s c d} hs h := by
    obtain ⟨hne, hknown⟩ := hK.spaces hs h.known
    rw [← Cursor.rest_skipWhile] at hne hknown
    exact ⟨h.extended.skipWhile hne, (c.source_skip _).trans h.source, h.reference, h.reference',
      hknown⟩
  column h _ := h.extended.column_eq
  reference h := h.reference.trans h.reference'.symm
  quoted {s c d x xs} hs h hrest := by
    have hne : s ≠ [] := by
      rintro rfl
      simp [Region.Quoted] at hs
    have hmore : xs ≠ [] := by
      have := hK.more h.known hne
      rwa [hrest] at this
    exact ⟨xs ++ more, by rw [h.extended.rest, hrest]; rfl,
      h.skip_one hrest hmore (hK.take (hrest ▸ h.known) (.inl hne))⟩

/-- Such places behind the end of a line: something is left of the source, or it has ended and what
    is behind it is next. -/
structure ExtendLine (source more : List Char) (m : Nat) (c d : Cursor) : Prop where
  /-- The next line is the same, or it is the first one of what is behind. -/
  place : c.Extended more d ∧ c.Full ∨ c.Passed more d
  /-- No blank lines are next. -/
  next : blankLength c.rest = 0
  /-- The first place is in the source. -/
  source : c.source = source
  /-- The line of its reference has the column. -/
  reference : c.reference.column = m
  /-- So has that of the second one. -/
  reference' : d.reference.column = m
  /-- Nothing lies behind on the line. -/
  leads : c.Leads

/-- A statement may start at a place of the source. -/
def Starts (source : List Char) (c : Cursor) : Prop := c.source = source ∧ c.Leads

/-- Behind white space nothing else lies on the line. -/
theorem Cursor.Leads.skipWhile {p : Char → Bool} (h : c.Leads) (hp : ∀ x, p x → Text.isSpace x) :
    (c.skipWhile p).Leads := by
  have hrun : ∀ x ∈ (c.rest.takeWhile p).reverse, Text.isSpace x := fun x hx =>
    hp x (List.all_eq_true.1 List.all_takeWhile x (List.mem_reverse.1 hx))
  intro x hx
  rw [behind, before_skipWhile, List.takeWhile_append] at hx
  split at hx
  · exact (List.mem_append.1 hx).elim (hrun x) (h x)
  · exact hrun x ((List.takeWhile_prefix _).mem hx)

/-- The start of a source leads its line. -/
theorem leads_of_behind (h : c.behind = []) : c.Leads := by
  rw [Cursor.Leads, h]
  exact List.forall_mem_nil _

/-- The end of a line may be taken. -/
theorem Extend.lineEnd (h : Extend Region.Shuts source more m [] c d) (hend : EndsLine c) :
    ExtendLine source more m (c.skip (blankLength c.rest)) (d.skip (blankLength d.rest)) := by
  have hsource := (c.source_skip (blankLength c.rest)).trans h.source
  have hnext : blankLength (c.skip (blankLength c.rest)).rest = 0 := Cursor.blankLength_drop c.rest
  by_cases hfull : c.Full
  · exact ⟨.inl (h.extended.skip_blankLength hfull), hnext, hsource, h.reference, h.reference',
      leads_of_behind (Cursor.behind_of_atLineStart (hfull.atLineStart_skip hend))⟩
  · have hpass := h.extended.pass hfull
    exact ⟨.inr hpass, hnext, hsource, h.reference, h.reference', leads_of_behind hpass.behind_eq⟩

/-- What is ahead on the next line is behind all layout. -/
theorem ExtendLine.rest_next (h : ExtendLine source more m c d) :
    (c.skipWhile Text.isBlank).rest = c.rest.dropWhile Text.isLayout := by
  have hrest := (rest_skip_blankLength c).1
  rwa [h.next, Cursor.skip_zero] at hrest

/-- A line that is not the last one is read in both sources. -/
theorem ExtendLine.extend (h : ExtendLine source more m c d) (hne : c.rest ≠ []) :
    Extend Region.Shuts source more m [] c d ∧ c.Full := by
  obtain ⟨hext, hfull⟩ := h.place.resolve_right fun h => hne h.ended
  exact ⟨⟨hext, h.source, h.reference, h.reference', fun h => absurd rfl h⟩, hfull⟩

/-- A line ends in the one source if it does in the other one. -/
theorem ExtendLine.endsLine_iff (h : ExtendLine source more m c d) (hmore : Layout.AtMargin more) :
    EndsLine c ↔ EndsLine d := by
  obtain ⟨hext, -⟩ | hpass := h.place
  · exact hext.endsLine_iff
  · refine iff_of_true (.of_end hpass.ended) ?_
    exact (hpass.starts hmore).elim .of_end fun hd => .inl hd.1

/-- Behind the end of a line, both are at lines again. -/
theorem ExtendLine.lineEnd (h : ExtendLine source more m c d) (hend : EndsLine c) :
    ExtendLine source more m (c.skip (blankLength c.rest)) (d.skip (blankLength d.rest)) := by
  obtain ⟨hext, -⟩ | hpass := h.place
  · exact (h.extend hext.ne_nil).1.lineEnd hend
  · have hpass := hpass.skip_blankLength
    exact ⟨.inr hpass, Cursor.blankLength_drop c.rest, (c.source_skip _).trans h.source,
      h.reference, h.reference', leads_of_behind hpass.behind_eq⟩

/-- Both skip the same, if the end of the source is not reached. -/
theorem Extend.skipWhile (h : Extend Region.Shuts source more m [] c d) {p : Char → Bool}
    (hne : (c.skipWhile p).rest ≠ []) :
    Extend Region.Shuts source more m [] (c.skipWhile p) (d.skipWhile p) :=
  ⟨h.extended.skipWhile hne, (c.source_skip _).trans h.source, h.reference, h.reference',
    fun h => absurd rfl h⟩

/-- The passages of both sources are in step. -/
theorem inStep_extend (hmore : Layout.AtMargin more) (source : List Char) :
    InStep (Extend Region.Shuts source more) (ExtendLine source more) (Starts source) where
  aligned := aligned_extend Region.tracks_shuts source more
  reference h := ⟨h.reference, h.reference'⟩
  withReference h hr hr' := ⟨h.extended.withReference _ _, h.source, hr, hr', h.known⟩
  withReference' h hr hr' := ⟨h.place.imp (fun h => ⟨h.1.withReference _ _, h.2⟩)
    fun h => h.withReference _ _, h.next, h.source, hr, hr', h.leads⟩
  here h := h
  gap {m c d} h hne := by
    have hc : c.rest ≠ [] := fun hnil => hne (by rw [Cursor.rest_skipWhile, hnil]; rfl)
    exact h.elim (·.skipWhile hne) fun h => (h.extend hc).1.skipWhile hne
  lead h := ⟨(Cursor.source_skip _ _).trans h.source, h.leads.skipWhile fun _ h => h⟩
  lineEnd {m J} := by
    refine agree_lineEnd (fun c d h => ?_) fun c d h hend => ?_
    · obtain h | h := h
      · exact h.extended.endsLine_iff
      · exact h.endsLine_iff hmore
    · obtain h | h := h
      · exact h.lineEnd hend
      · exact h.lineEnd hend
  next {m c d} h hend := by
    have hc : c.rest ≠ [] := fun hnil => hend (by rw [Cursor.atEnd, hnil]; rfl)
    obtain ⟨hext, hfull⟩ := h.extend hc
    have hne : (c.skipWhile Text.isBlank).rest ≠ [] := by
      rw [h.rest_next]
      exact hfull
    have hd : d.rest ≠ [] := fun hnil =>
      hc (((aligned_extend Region.tracks_shuts source more m).nil hext).2 hnil)
    refine ⟨fun hend => hd (List.isEmpty_iff.1 hend), hext.skipWhile hne, hne,
      (Cursor.source_skip _ _).trans h.source, h.leads.skipWhile fun _ => Text.isSpace_of_isBlank⟩
  stop {m c d} h hend := by
    obtain ⟨hext, -⟩ | hpass := h.place
    · exact absurd (List.isEmpty_iff.1 hend) hext.ne_nil
    · exact (hpass.starts hmore).imp (fun h => List.isEmpty_iff.2 h) fun hd => ⟨hd.2, h.reference'⟩

end

namespace Grammar

variable {α : Type} {registry : Registry} {inner inner' : Nested} {base : List String}
  {source more : List Char} {m n n' : Nat} {c c' d : Cursor} {f f' : Facts} {e : Expr .text}

/-! ## Lines of text -/

/-- What is first on a line is no white space. -/
def Fresh (c : Cursor) : Prop := c.Leads → ∀ x xs, c.rest = x :: xs → Text.isSpace x = false

/-- Where a line is found to end, nothing is ahead on it. -/
theorem line_of_wouldMatch {b : Bool} (h : (wouldMatch eol : Rule Bool) c f = .ok b c' f') :
    c' = c ∧ (b → c.line = []) := by
  obtain ⟨rfl, -, ⟨-, _, _, _, heol⟩ | ⟨rfl, -⟩⟩ := of_wouldMatch_eq_ok h
  · obtain ⟨hline, -⟩ | ⟨-, i, e, hmiss⟩ := eol_spec c' f
    · exact ⟨rfl, fun _ => hline⟩
    · cases heol.symm.trans hmiss
  · exact ⟨rfl, fun hb => absurd hb Bool.false_ne_true⟩

/-- Behind a line of text nothing is ahead on the line. -/
theorem line_of_textLine (h : textLine (.upTo registry n) c f = .ok e c' f') : c'.line = [] := by
  have hline {inner : Nested} (hnext : ∀ ⦃c f e c' f'⦄, inner.textLine c f = .ok e c' f' →
      c'.line = []) ⦃c : Cursor⦄ ⦃f : Facts⦄ ⦃e : Expr .text⦄ ⦃c' : Cursor⦄ ⦃f' : Facts⦄
      (h : textLine inner c f = .ok e c' f') : c'.line = [] := by
    obtain ⟨_, c₁, f₁, -, hrun⟩ := of_bind_eq_ok h
    obtain ⟨run, c₂, f₂, -, hstop⟩ := of_bind_eq_ok hrun
    obtain ⟨ended, c₃, f₃, hend, h⟩ := of_bind_eq_ok hstop
    clear hrun hstop
    split at h
    · rename_i hended
      obtain ⟨rfl, hline⟩ := line_of_wouldMatch hend
      generalize Text.trimEnd run = kept at h
      cases kept <;> cases h <;> exact hline hended
    · obtain ⟨piece, c₄, f₄, -, h⟩ := of_bind_eq_ok h
      obtain ⟨rest, c₅, f₅, hrest, h⟩ := of_bind_eq_ok h
      cases h
      exact hnext hrest
  have hnext (n : Nat) : ∀ ⦃c f e c' f'⦄, (Nested.upTo registry n).textLine c f = .ok e c' f' →
      c'.line = [] := by
    induction n with
    | zero => rintro _ _ _ _ _ ⟨⟩
    | succ n ih => exact hline ih
  exact hline (hnext n) h

/-- A line of text that answers stops where all regions are closed. -/
theorem ends_textLine (h : textLine (.upTo registry n) c f = .ok e c' f') (hfresh : Fresh c)
    (hend : ∃ x ∈ c.rest.getLast?, Text.isBreak x) : Region.Ends [] c.rest := by
  have hwithin : Within c.index c := fun hl => .inl ⟨rfl, hfresh hl⟩
  obtain ⟨k, hk, rfl, hclosed, -⟩ := (scans_textLine (scan_upTo n) hwithin h).1.spelled
  have hclosed : Region.afterAll [] (c.rest.take k) = [] := hclosed.symm
  obtain ⟨ys, hys, hbreak⟩ := (c.skip k).rest_eq_line
  rw [line_of_textLine h, List.nil_append] at hys
  have hsplit : c.rest = c.rest.take k ++ ys := by
    rw [← hys, Cursor.rest_skip, List.take_append_drop]
  cases ys with
  | nil =>
    rw [List.append_nil] at hsplit
    rw [← hsplit] at hclosed
    exact Region.ends_of_afterAll hend hclosed
  | cons x xs => exact ⟨_, x, xs, hsplit, hbreak x rfl, hclosed⟩

/-- A line of text follows itself. -/
theorem follows_textLine : Follows base
    (fun c d => Extend Region.Shuts source more m [] c d ∧ Fresh c) (textLine (.upTo registry n))
    (textLine (.upTo registry n')) Eq (Extend Region.Shuts source more m []) Never := by
  have hR := aligned_extend Region.tracks_ends source more m
  have hbrace {c d : Cursor} {xs : List Char} (h : Extend Region.Ends source more m [] c d)
      (hline : c.line = openBrace :: xs) :
      Extend Region.Ends source more m [.braces] (c.skip 1) (d.skip 1) := by
    obtain ⟨ys, hrest⟩ := Cursor.rest_eq_cons hline
    have hknown : Region.Ends [] (openBrace :: ys) := hrest ▸ h.known
    exact h.skip_one hrest (h.tail_ne_nil hrest (by decide)) (hknown.take (.inr (by decide)))
  have hagree (k l : Facts) : Agree (Facts.Idle k.declared l.declared)
      (Extend Region.Ends source more m []) (textLine (.upTo registry n))
      (textLine (.upTo registry n')) (Extend Region.Ends source more m []) :=
    agree_textLine hR hbrace (concur_upTo hR.matched n n') (agree_textLine_upTo hR hbrace n n')
  have hclosed : Follows base (Extend Region.Ends source more m []) (textLine (.upTo registry n))
      (textLine (.upTo registry n')) Eq (Extend Region.Shuts source more m []) Never :=
    (Follows.of_agree hagree).mono (fun _ _ h => h) fun _ _ h => h.bare
  exact hclosed.answered fun c d f e c' f' ⟨h, hfresh⟩ hr =>
    h.within (ends_textLine hr hfresh h.extended.ended)

/-- A line of text only claims ids. -/
theorem claims_textLine (n : Nat) : Claims (textLine (.upTo registry n)) :=
  .of_agree fun c _ _ => ⟨_, _, ⟨.refl c, rfl, rfl⟩,
    agree_textLine (aligned_shift c.reference.column) levelled_shift.brace
      (concur_upTo (aligned_shift _).matched n n)
      (agree_textLine_upTo (aligned_shift _) levelled_shift.brace n n)⟩

/-- Behind the blanks before it the next line starts with no white space. -/
theorem fresh_next (h : ExtendLine source more m c d) (hne : c.rest ≠ []) :
    Fresh (c.skipWhile Text.isBlank) := by
  intro _ x xs hrest
  obtain ⟨hext, -⟩ := h.extend hne
  rw [h.rest_next] at hrest
  have hx : Text.isLayout x = false := head_dropWhile x (by rw [hrest]; rfl)
  have hmem : x ∈ c.rest := (List.dropWhile_suffix _).mem (hrest ▸ List.mem_cons_self)
  refine Bool.eq_false_iff.2 fun hspace => ?_
  rw [hext.extended.usual x hmem hspace] at hx
  cases hx

/-- Lines of text, the further ones where `continues` applies, but not on a line that is not
    indented. -/
theorem follows_textLines {β : Type} (hmore : Layout.AtMargin more) {item item' : Rule α}
    {continues : Rule β}
    (hclaims : Claims item) (hsilent : Silent continues)
    (hitem : Follows base (fun c d => Extend Region.Shuts source more m [] c d ∧ Fresh c) item item'
      Eq (Extend Region.Shuts source more m []) Never)
    (hcont : ∀ f g : Facts, Agree (Facts.Idle f.declared g.declared)
      (fun c d => Extend Region.Shuts source more m [] c d ∧ c.rest ≠ []) continues continues
      fun _ _ => True)
    (hstop : ∀ (d : Cursor) (g : Facts), d.column = 1 → d.reference.column = m →
      Misses continues d g) :
    Follows base (fun c d => Extend Region.Shuts source more m [] c d ∧ Fresh c)
      (block item continues 1) (block item' continues 1) Eq (ExtendLine source more m) Never := by
  have hS := inStep_extend hmore source
  have hblock : Follows base (fun c d => Extend Region.Shuts source more m [] c d ∧ Fresh c)
      (block item continues 1) (block item' continues 1) (fun as bs => as.map id = bs.map id)
      (ExtendLine source more m) fun as => ∃ a ∈ as.getLast?, Never a :=
    .block (N := fun c d => (Extend Region.Shuts source more m [] c d ∧ Fresh c) ∧ c.rest ≠ [])
      (Nat.le_refl 1) hclaims hsilent
      (follows_lineEnd hS (hitem.mono (fun _ _ h => h) fun _ _ => .inl))
      (fun c d hL hend => (hS.stop hL hend).imp_right fun hd g => hstop _ g hd.1 hd.2)
      (fun c d hL hend => ?_) (fun f g => (hcont f g).pre fun _ _ h => ⟨h.1.1, h.2⟩)
      fun _ _ h => h.1
  · refine (hblock.mono (fun as bs h => ?_) fun _ _ h => h).opens ?_
    · rwa [List.map_id, List.map_id] at h
    · rintro as ⟨_, _, hopen⟩
      exact hopen
  · obtain ⟨hd, hR, hne, -⟩ := hS.next hL hend
    exact ⟨hd, ⟨hR, fresh_next hL fun hnil => hend (List.isEmpty_iff.2 hnil)⟩, hne⟩

/-- A text follows itself: its lines end where the source does. -/
theorem follows_text (hmore : Layout.AtMargin more) (hm : 0 < m) :
    Follows base (fun c d => Extend Region.Shuts source more m [] c d ∧ Fresh c)
      (text (.upTo registry n)) (text (.upTo registry n')) Eq (ExtendLine source more m) Never := by
  have hR := aligned_extend Region.tracks_shuts source more m
  refine (follows_textLines hmore (claims_textLine n) silent_indented follows_textLine
    (fun _ _ => (agree_indentation hR _ _).mono fun _ _ _ => trivial) fun d g hone href => ?_).map
      (fun _ _ h => congrArg joinLines h) fun _ h => h
  simp only [Misses, indented, indentation, hone, href]
  rw [if_neg fun h => Nat.not_lt.2 hm (of_decide_eq_true h)]
  exact ⟨_, _, _, rfl⟩

/-- Behind the mark of a prompt something else lies on the line. -/
theorem not_leads_of_promptMark {u : Unit} (h : promptMark c f = .ok u c' f') : ¬c'.Leads := by
  have hspans : Spans Text.isBlank (discard blanks : Rule Unit) :=
    (spans_takeWhile fun _ h => h).map
  obtain ⟨_, c₁, f₁, hmark, hblanks⟩ := of_bind_eq_ok h
  obtain ⟨xs, hrest, rfl⟩ := char_eq_ok hmark
  obtain ⟨w, ys, hw, rfl, hblank⟩ := hspans hblanks
  intro hl
  refine Cursor.not_leads_skip_one hrest (by decide) fun x hx => hl x ?_
  rw [Cursor.behind_skip_append hw fun y hy => Text.not_isBreak_of_isBlank (hblank y hy)]
  exact List.mem_append_right _ hx

/-- A prompt follows itself, since it ends on its line. -/
theorem follows_prompt (hmore : Layout.AtMargin more) (hm : 1 < m) :
    Follows base (Extend Region.Shuts source more m []) (prompt (.upTo registry n))
      (prompt (.upTo registry n')) Eq (ExtendLine source more m) Never := by
  have hR := aligned_extend Region.tracks_shuts source more m
  have hmark (k l : Facts) : Agree (Facts.Idle k.declared l.declared)
      (Extend Region.Shuts source more m []) promptMark promptMark
      fun c d => Extend Region.Shuts source more m [] c d ∧ Fresh c :=
    (agree_promptMark hR).answers fun _ _ _ _ _ _ _ hr hl => absurd hl (not_leads_of_promptMark hr)
  have hlines : Follows base (fun c d => Extend Region.Shuts source more m [] c d ∧ Fresh c)
      (prompt (.upTo registry n)) (prompt (.upTo registry n')) Eq (ExtendLine source more m)
      Never := by
    refine (follows_textLines hmore ?_ (silent_sameOrIndented.seqLeft silent_lookAhead) ?_
      (fun _ _ => ?_) fun d g hone href => ?_).map (fun _ _ h => congrArg joinLines h) fun _ h => h
    · exact (Claims.of_silent silent_promptMark).bind fun _ => claims_textLine n
    · exact (Follows.after hmark fun _ => follows_textLine).pre fun _ _ h => h.1
    · exact ((agree_indentation hR _ _).seqLeft (agree_promptMark hR).lookAhead).mono
        fun _ _ _ => trivial
    · -- What starts at the margin is not as deep as the options, so it is no line of the prompt.
      have hindent : Misses (sameOrIndented : Rule Nat) d g := by
        simp only [Misses, sameOrIndented, indentation, hone, href]
        rw [if_neg fun h => Nat.not_le.2 hm (of_decide_eq_true h)]
        exact ⟨_, _, _, rfl⟩
      exact hindent.bind _
  refine hlines.answered fun c d f e c' f' h hr => ⟨h, fun _ x xs hrest => ?_⟩
  obtain ⟨_, _, _, hblock, -⟩ := of_bind_eq_ok hr
  obtain ⟨_, _, _, _, hfirst, -⟩ := block_eq_ok hblock
  obtain ⟨_, _, _, hitem, -⟩ := of_bind_eq_ok hfirst
  obtain ⟨_, _, _, hpromptMark, -⟩ := of_bind_eq_ok hitem
  obtain ⟨_, _, _, hchar, -⟩ := of_bind_eq_ok hpromptMark
  obtain ⟨ys, hys, -⟩ := char_eq_ok hchar
  rw [hrest] at hys
  cases hys
  decide

end Grammar

end Dialogue
