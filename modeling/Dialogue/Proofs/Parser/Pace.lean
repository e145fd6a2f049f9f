import Dialogue.Proofs.Parser.Walk

/-!
# Paces

A parser that *keeps* (`Keeps`) stays below every bound on what is ahead, and one that *takes*
something (`Takes`) gets below the next one. Neither fails for good. The tokens are of one of
both kinds, and so is what is built from them.

A line takes something if it is not at the end of the source (`walks_lineEnd`): behind what
was read there is a line break, or something was read.
-/

namespace Dialogue.Parser

open Cursor (Below)

variable {σ α β : Type} {p : Parser σ α} {q : Parser σ β}

/-- The parser moves ahead, and never fails for good. -/
def Keeps (p : Parser σ α) : Prop := ∀ F o n, Walks F o (Below n) p fun _ => Below n

/-- The parser moves ahead over something, and never fails for good. -/
def Takes (p : Parser σ α) : Prop := ∀ F o n, Walks F o (Below (n + 1)) p fun _ => Below n

/-- A parser that keeps walks below any bound. -/
theorem Keeps.walks {F : Reason → Prop} {o : Cursor} {n : Nat} (h : Keeps p) :
    Walks F o (Below n) p fun _ => Below n := h F o n

/-- A parser that takes something walks from any bound to the one before. -/
theorem Takes.walks {F : Reason → Prop} {o : Cursor} {n : Nat} (h : Takes p) :
    Walks F o (Below (n + 1)) p fun _ => Below n := h F o n

/-- What is below a bound is below the next one. -/
theorem below_succ {n : Nat} {c : Cursor} (h : Below n c) : Below (n + 1) c := Nat.lt_succ_of_lt h

/-- What takes something keeps. -/
theorem Takes.keeps (h : Takes p) : Keeps p := fun F o n =>
  match n with
  | 0 => fun c _ _ hc => absurd hc (Nat.not_lt_zero c.remaining)
  | n + 1 => (h F o n).mono fun _ _ => below_succ

namespace Keeps

/-- A value takes nothing. -/
theorem pure (a : α) : Keeps (Pure.pure a : Parser σ α) := fun _ _ _ => .pure fun _ h => h

/-- Parsers that keep do so in turn. -/
theorem bind {f : α → Parser σ β} (hp : Keeps p) (hf : ∀ a, Keeps (f a)) : Keeps (p >>= f) :=
  fun F o n => (hp F o n).bind fun a => hf a F o n

/-- A changed value takes as much. -/
theorem map {f : α → β} (hp : Keeps p) : Keeps (f <$> p) := fun F o n => .map (hp F o n)

/-- A value that is thrown away takes as much. -/
theorem discard (hp : Keeps p) : Keeps (Functor.discard p) := hp.map

/-- Parsers that keep do so in turn if the first value is kept. -/
theorem seqLeft (hp : Keeps p) (hq : Keeps q) : Keeps (p <* q) :=
  fun F o n => (hp F o n).seqLeft fun _ => hq F o n

/-- Parsers that keep do so in turn if the second value is kept. -/
theorem seqRight (hp : Keeps p) (hq : Keeps q) : Keeps (p *> q) :=
  fun F o n => (hp F o n).seqRight fun _ => hq F o n

/-- Alternatives that keep do so together. -/
theorem orElse {q : Parser σ α} (hp : Keeps p) (hq : Keeps q) : Keeps (p <|> q) :=
  fun F o n => (hp F o n).orElse (hq F o n)

/-- What may be missing keeps. -/
theorem optional (hp : Keeps p) : Keeps (Parser.optional p) :=
  fun F o n => .optional (hp F o n) fun _ h => h

/-- What is only looked at takes nothing. -/
theorem lookAhead (hp : Keeps p) : Keeps (Parser.lookAhead p) :=
  fun F o n => .lookAhead (hp F o n)

/-- What must not follow takes nothing. -/
theorem notFollowedBy {what : String} (hp : Keeps p) : Keeps (Parser.notFollowedBy p what) :=
  fun F o n => .notFollowedBy (hp F o n)

/-- What is only tried takes nothing. -/
theorem wouldMatch (hp : Keeps p) : Keeps (Parser.wouldMatch p) :=
  fun F o n => .wouldMatch (hp F o n)

/-- Repetitions keep, whether or not an item takes something. -/
theorem many (hp : Keeps p) (owed : Nat) : Keeps (Parser.many p owed) :=
  fun F o n => .many owed (hp F o n)

end Keeps

namespace Takes

/-- Behind something that is taken, the rest need only keep. -/
theorem bind {f : α → Parser σ β} (hp : Takes p) (hf : ∀ a, Keeps (f a)) : Takes (p >>= f) :=
  fun F o n => (hp F o n).bind fun a => hf a F o n

/-- Something is taken only later. -/
theorem after {f : α → Parser σ β} (hp : Keeps p) (hf : ∀ a, Takes (f a)) : Takes (p >>= f) :=
  fun F o n => (hp F o (n + 1)).bind fun a => hf a F o n

/-- A changed value takes as much. -/
theorem map {f : α → β} (hp : Takes p) : Takes (f <$> p) := fun F o n => .map (hp F o n)

/-- Behind something that is taken, what is thrown away need only keep. -/
theorem seqLeft (hp : Takes p) (hq : Keeps q) : Takes (p <* q) :=
  fun F o n => (hp F o n).seqLeft fun _ => hq F o n

/-- Alternatives take something if both of them do. -/
theorem orElse {q : Parser σ α} (hp : Takes p) (hq : Takes q) : Takes (p <|> q) :=
  fun F o n => (hp F o n).orElse (hq F o n)

/-- A value that is accepted was taken. -/
theorem filter {accepts : α → Bool} {what : String} (hp : Takes p) :
    Takes (Parser.filter accepts what p) := fun F o n => (hp F o n).filter

end Takes

/-! ## Tokens -/

/-- A token is some characters ahead, or is missing here. -/
theorem keeps_token (h : ∀ c j, (∃ a m, p c j = .ok a (c.skip m) j) ∨
    ∃ what, p c j = .miss c.index [what] j) : Keeps p := by
  intro F o n c j ho hc
  obtain ⟨a, m, hr⟩ | ⟨what, hr⟩ := h c j
  · rw [hr]
    exact ⟨Cursor.ahead_skip m c, rfl, Nat.lt_of_le_of_lt (c.remaining_skip_le m) hc⟩
  · rw [hr]
    exact ⟨ho.sees_index, List.cons_ne_nil _ _⟩

/-- A token of at least one character takes something. -/
theorem takes_token (h : ∀ c j, (∃ a m, 0 < m ∧ c.rest ≠ [] ∧ p c j = .ok a (c.skip m) j) ∨
    ∃ what, p c j = .miss c.index [what] j) : Takes p := by
  intro F o n c j ho hc
  obtain ⟨a, m, hm, hrest, hr⟩ | ⟨what, hr⟩ := h c j
  · rw [hr]
    exact ⟨Cursor.ahead_skip m c, rfl,
      Nat.lt_of_lt_of_le (Cursor.remaining_skip_lt hm hrest) (Nat.le_of_lt_succ hc)⟩
  · rw [hr]
    exact ⟨ho.sees_index, List.cons_ne_nil _ _⟩

/-- To ask for the offset takes nothing. -/
theorem keeps_position : Keeps (position : Parser σ Nat) :=
  fun _ _ _ => Walks.position.mono fun _ _ h => h.2

/-- To note something takes nothing. -/
theorem keeps_record (f : σ → σ) : Keeps (record f) := fun _ _ _ => .record

/-- What is only expected is never answered. -/
theorem takes_expected (what : String) : Takes (expected what : Parser σ α) :=
  fun _ _ _ => .expected

/-- A run of characters may be empty. -/
theorem keeps_takeWhile (set : Char → Bool) : Keeps (takeWhile set : Parser σ _) :=
  keeps_token fun _ _ => .inl ⟨_, _, rfl⟩

/-- There may be no blanks. -/
theorem keeps_blanks : Keeps (blanks : Parser σ _) := keeps_takeWhile _

/-- There may be no white space. -/
theorem keeps_spaces : Keeps (spaces : Parser σ _) := keeps_takeWhile _

/-- A run that must not be empty takes a character at least. -/
theorem takes_takeWhile1 (set : Char → Bool) (what : String) :
    Takes (takeWhile1 set what : Parser σ _) := by
  refine takes_token fun c j => ?_
  rw [takeWhile1]
  split
  · exact .inr ⟨_, rfl⟩
  · rename_i hne
    refine .inl ⟨_, _, List.length_pos_iff.2 hne, fun h => hne ?_, rfl⟩
    rw [h, List.takeWhile_nil]

/-- Blanks of which there must be some take one at least. -/
theorem takes_blanks1 : Takes (blanks1 : Parser σ _) := takes_takeWhile1 _ _

/-- A single character is taken. -/
theorem takes_satisfy (set : Char → Bool) (what : String) :
    Takes (satisfy set what : Parser σ _) := by
  refine takes_token fun c j => ?_
  rw [satisfy]
  split
  · rename_i hrest
    split
    · exact .inl ⟨_, 1, Nat.one_pos, hrest ▸ List.cons_ne_nil _ _, rfl⟩
    · exact .inr ⟨_, rfl⟩
  · exact .inr ⟨_, rfl⟩

/-- A fixed character is taken. -/
theorem takes_char (x : Char) : Takes (char x : Parser σ _) := takes_satisfy _ _

/-- A line break takes one character or two. -/
theorem takes_newline : Takes (newline : Parser σ Unit) := by
  refine takes_token fun c j => ?_
  rw [newline]
  split
  · rename_i hrest
    exact .inl ⟨_, 2, Nat.two_pos, hrest ▸ List.cons_ne_nil _ _, rfl⟩
  · rename_i hrest
    split
    · exact .inl ⟨_, 1, Nat.one_pos, hrest ▸ List.cons_ne_nil _ _, rfl⟩
    · exact .inr ⟨_, rfl⟩
  · exact .inr ⟨_, rfl⟩

/-- The end of the source takes nothing. -/
theorem keeps_eof : Keeps (eof : Parser σ Unit) := by
  intro F o n c j ho hc
  rw [eof]
  split
  · exact ⟨.refl c, rfl, hc⟩
  · exact ⟨ho.sees_index, List.cons_ne_nil _ _⟩

/-- A fixed text may be empty. -/
theorem keeps_tag (text : String) : Keeps (tag text : Parser σ _) := by
  refine keeps_token fun c j => ?_
  rw [tag]
  split
  · exact .inl ⟨_, _, rfl⟩
  · exact .inr ⟨_, rfl⟩

/-- The characters of a text that is ahead. -/
theorem rest_ne_nil_of_isPrefixOf {text : String} {cs : List Char} (ht : text ≠ "")
    (h : text.toList.isPrefixOf cs) : 0 < text.length ∧ cs ≠ [] := by
  have hne : text.toList ≠ [] := fun h => ht (String.toList_inj.1 h)
  refine ⟨by rw [← String.length_toList]; exact List.length_pos_iff.2 hne, ?_⟩
  rintro rfl
  exact hne (List.prefix_nil.1 (List.isPrefixOf_iff_prefix.1 h))

/-- A fixed text that is not empty is taken. -/
theorem takes_tag {text : String} (ht : text ≠ "") : Takes (tag text : Parser σ _) := by
  refine takes_token fun c j => ?_
  rw [tag]
  split
  · rename_i h
    obtain ⟨hpos, hne⟩ := rest_ne_nil_of_isPrefixOf ht h
    exact .inl ⟨_, _, hpos, hne, rfl⟩
  · exact .inr ⟨_, rfl⟩

/-- A word may be empty. -/
theorem keeps_keyword (word : String) : Keeps (keyword word : Parser σ _) := by
  refine keeps_token fun c j => ?_
  rw [keyword]
  split
  · exact .inl ⟨_, _, rfl⟩
  · exact .inr ⟨_, rfl⟩

/-- A word that is not empty is taken. -/
theorem takes_keyword {word : String} (hw : word ≠ "") : Takes (keyword word : Parser σ _) := by
  refine takes_token fun c j => ?_
  rw [keyword]
  split
  · rename_i h
    obtain ⟨hpos, hne⟩ := rest_ne_nil_of_isPrefixOf hw (Bool.and_eq_true_iff.1 h).1
    exact .inl ⟨_, _, hpos, hne, rfl⟩
  · exact .inr ⟨_, rfl⟩

/-- An operator that is not empty is taken, whichever way it is spelled. -/
theorem takes_symbol {spelling : String} (hs : spelling ≠ "") :
    Takes (symbol spelling : Parser σ _) := by
  rw [symbol]
  split
  · exact takes_keyword hs
  · exact takes_tag hs

/-- A numeral has a digit, so there is something ahead. -/
theorem numeral?_ne_nil {cs numeral : List Char} (h : numeral? cs = some numeral) :
    numeral ≠ [] ∧ cs ≠ [] := by
  cases cs with
  | nil => cases h
  | cons c rest =>
    refine ⟨?_, List.cons_ne_nil _ _⟩
    rintro rfl
    simp only [numeral?] at h
    generalize (if c = '+' || c = '-' then ([c], rest) else ([], c :: rest)) = signed at h
    -- The digits before the point are not empty.
    by_cases hwhole : (digitRun signed.2).isEmpty
    · rw [if_pos hwhole] at h
      cases h
    · rw [if_neg hwhole] at h
      rw [List.isEmpty_iff] at hwhole
      split at h
      · split at h <;> simp [hwhole] at h
      · simp [hwhole] at h

/-- A number takes a digit at least. -/
theorem takes_number : Takes (number : Parser σ _) := by
  refine takes_token fun c j => ?_
  rw [number]
  split
  · exact .inr ⟨_, rfl⟩
  · rename_i numeral h
    obtain ⟨hne, hrest⟩ := numeral?_ne_nil h
    split
    · exact .inl ⟨_, _, List.length_pos_iff.2 hne, hrest, rfl⟩
    · exact .inr ⟨_, rfl⟩

/-- A check of the column takes nothing. -/
theorem keeps_indentation (accepts : Nat → Nat → Bool) (what : Nat → String) :
    Keeps (indentation accepts what : Parser σ _) := by
  intro F o n c j ho hc
  simp only [indentation]
  split
  · exact ⟨.refl c, rfl, hc⟩
  · exact ⟨ho.sees_index, List.cons_ne_nil _ _⟩

/-- To ask for the same indentation takes nothing. -/
theorem keeps_same : Keeps (same : Parser σ _) := keeps_indentation _ _

/-- To ask for the same indentation or more takes nothing. -/
theorem keeps_sameOrIndented : Keeps (sameOrIndented : Parser σ _) := keeps_indentation _ _

/-- To ask for more indentation takes nothing. -/
theorem keeps_indented : Keeps (indented : Parser σ _) := keeps_indentation _ _

/-! ## Lines -/

/-- The end of a line may be that of the source. -/
theorem keeps_eol : Keeps (eol : Parser σ Unit) := takes_newline.keeps.orElse keeps_eof

/-- There may be no blank lines. -/
theorem keeps_blankLines : Keeps (blankLines : Parser σ Unit) :=
  ((keeps_blanks.seqRight takes_newline.keeps).many 0).bind fun _ =>
    (keeps_blanks.seqRight keeps_eof).optional.discard

/-- The end of a line keeps, with the blank lines behind it. -/
theorem keeps_lineEnd : Keeps (lineEnd : Parser σ Unit) := by
  intro F o n c j ho hc
  rw [lineEnd]
  split
  · exact keeps_blankLines F o n j ho hc
  · exact keeps_blanks.seqRight (keeps_eol.seqRight keeps_blankLines) F o n j ho hc

section

variable {F : Reason → Prop} {o : Cursor} {m : Nat}

/-- Behind the end of a line something was taken, or nothing is ahead. -/
theorem walks_eol :
    Walks F o (Below (m + 1)) (eol : Parser σ Unit) fun _ => Below (max m 1) := by
  refine .orElse ((takes_newline F o m).mono fun _ c h => ?_) fun c j ho hc => ?_
  · exact Nat.lt_of_lt_of_le h (Nat.le_max_left m 1)
  · rw [eof]
    split
    · rename_i he
      refine ⟨.refl c, rfl, ?_⟩
      have := Cursor.remaining_eq_zero he
      simp only [Below]
      omega
    · exact ⟨ho.sees_index, List.cons_ne_nil _ _⟩

/-- Where a line break is next, it is answered. -/
theorem newline_of_break {c : Cursor} {x : Char} {xs : List Char} (hr : c.rest = x :: xs)
    (hx : Text.isBreak x) (j : σ) : ∃ c', newline c j = .ok () c' j := by
  rw [newline]
  split
  · exact ⟨_, rfl⟩
  · rename_i hr'
    rw [hr] at hr'
    cases hr'
    rw [if_pos hx]
    exact ⟨_, rfl⟩
  · rename_i hr'
    rw [hr] at hr'
    cases hr'

/-- Before a line break there is a blank line. -/
theorem blankLine_of_break {c : Cursor} {x : Char} {xs : List Char} (hr : c.rest = x :: xs)
    (hx : Text.isBreak x) (j : σ) : ∃ c', (blanks *> newline) c j = .ok () c' j := by
  have hblanks : c.rest.takeWhile Text.isBlank = [] := by
    rw [hr, List.takeWhile_cons_of_neg]
    exact fun hb => absurd hx (by simp [Text.not_isBreak_of_isBlank hb])
  obtain ⟨c', h⟩ := newline_of_break (c := c.skip 0) hr hx j
  refine ⟨c', ?_⟩
  change newline (c.skip (c.rest.takeWhile Text.isBlank).length) j = _
  rw [hblanks]
  exact h

/-- Before a line break, the first of the blank lines takes something. -/
theorem walks_blankLines :
    Walks F o (fun c => Below (m + 1) c ∧ ∃ x xs, c.rest = x :: xs ∧ Text.isBreak x)
      (blankLines : Parser σ Unit) fun _ => Below m := by
  refine .bind ?_ fun _ => (keeps_blanks.seqRight keeps_eof).optional.discard F o m
  rintro c j ho ⟨hc, x, xs, hr, hx⟩
  obtain ⟨c', hline⟩ := blankLine_of_break hr hx j
  have hfirst := Takes.after keeps_blanks (fun _ => takes_newline) F o c.remaining j ho
    (Nat.lt_succ_self _)
  rw [show (blanks >>= fun _ => newline) c j = _ from hline] at hfirst
  obtain ⟨hahead, href, hlt⟩ := hfirst
  have hrest := (keeps_blanks.seqRight takes_newline.keeps).many (0 - 1) F o m j (ho.trans hahead)
    (Nat.lt_of_lt_of_le hlt (Nat.le_of_lt_succ hc))
  rw [many, hline]
  dsimp only
  rw [dif_pos (show c'.remaining < c.remaining from hlt)]
  exact Reply.Walked.map (R := fun _ => Below m) (hrest.back hahead href)

/-- At the end of a line, what is taken with it is not nothing, unless nothing is ahead. -/
theorem walks_lineEnd :
    Walks F o (fun c => Below (m + 1) c ∧ c.AtLineEnd) (lineEnd : Parser σ Unit)
      fun _ => Below (max m 1) := by
  rintro c j ho ⟨hc, he⟩
  rw [lineEnd]
  split
  · obtain he | hbreak := he
    · have hnone : Below 1 c := by simp [Below, Cursor.remaining_eq_zero he]
      refine (keeps_blankLines F o 1 j ho hnone).mono fun _ c' _ h => ?_
      exact Nat.lt_of_lt_of_le h (Nat.le_max_right m 1)
    · refine (walks_blankLines j ho ⟨hc, hbreak⟩).mono fun _ c' _ h => ?_
      exact Nat.lt_of_lt_of_le h (Nat.le_max_left m 1)
  · have hline : Walks F o (Below (m + 1)) (blanks *> eol *> blankLines : Parser σ Unit)
        fun _ => Below (max m 1) :=
      (keeps_blanks F o (m + 1)).seqRight fun _ =>
        walks_eol.seqRight fun _ => keeps_blankLines F o (max m 1)
    exact hline j ho hc

end

end Dialogue.Parser
