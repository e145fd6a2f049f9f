import Dialogue.Proofs.Cursor.SourceMap

/-!
# Lines and columns

A location is exact (`Location.of_exact`): it is at the last boundary that is not past its
offset, its line is one more than the lines that end up to there (`LineEnd`), and its column
one more than the characters behind the last of these ends. So lines and columns tell the
boundaries of a source apart, in their order.

A cursor finds the start of its line on its own: it goes back to the character nearest to it that
breaks a line. This is the place where the line of the location starts, unless the cursor stands
between a carriage return and its line feed (`Location.column_past`).
-/

namespace Dialogue

/-! ## Ends of lines -/

/-- A line of the source ends behind so many characters. -/
inductive LineEnd : (source : List Char) → Nat → Prop
  /-- A carriage return and a line feed. -/
  | both {cs ds : List Char} : LineEnd (cs ++ '\r' :: '\n' :: ds) (cs.length + 2)
  /-- A line feed on its own. -/
  | feed {cs ds : List Char} (h : cs.getLast? ≠ some '\r') :
      LineEnd (cs ++ '\n' :: ds) (cs.length + 1)
  /-- A carriage return on its own. -/
  | carriage {cs ds : List Char} (h : ds.head? ≠ some '\n') :
      LineEnd (cs ++ '\r' :: ds) (cs.length + 1)

/-- The ends of the lines that end up to the place behind so many characters, in their order. -/
structure LineEnds (source : List Char) (n : Nat) (ends : List Nat) : Prop where
  /-- Each is there once. -/
  sorted : ends.Pairwise (· < ·)
  /-- They are the ends up to there. -/
  mem_iff : ∀ k, k ∈ ends ↔ LineEnd source k ∧ k ≤ n

namespace LineEnd

variable {cs ds : List Char} {c : Char} {k : Nat}

/-- A line ends behind its first character at the earliest. -/
theorem pos {source : List Char} (h : LineEnd source k) : 0 < k := by
  cases h <;> exact Nat.succ_pos _

/-- What ends a line and what follows it tell where the line ends. -/
theorem endsLine_iff : LineEnd (cs ++ c :: ds) (cs.length + 1) ↔ Location.endsLine c ds := by
  rw [Location.endsLine, Bool.or_eq_true, Bool.and_eq_true, decide_eq_true_iff, decide_eq_true_iff,
    decide_eq_true_iff]
  constructor
  · intro h
    generalize hs : cs ++ c :: ds = source at h
    generalize hn : cs.length + 1 = n at h
    cases h with
    | @both as bs =>
      -- The line ends behind the line feed, so this is the character.
      have hsplit : cs ++ c :: ds = (as ++ ['\r']) ++ '\n' :: bs := by
        rw [hs, List.append_assoc, List.singleton_append]
      have hlength : cs.length = (as ++ ['\r']).length := by
        rw [List.length_append, List.length_singleton]
        omega
      obtain ⟨-, h⟩ := List.append_inj hsplit hlength
      exact .inl (List.cons.inj h).1
    | feed =>
      obtain ⟨-, h⟩ := List.append_inj hs (Nat.succ.inj hn)
      exact .inl (List.cons.inj h).1
    | carriage hhead =>
      obtain ⟨-, h⟩ := List.append_inj hs (Nat.succ.inj hn)
      obtain ⟨rfl, rfl⟩ := List.cons.inj h
      exact .inr ⟨rfl, hhead⟩
  · rintro (rfl | ⟨rfl, hhead⟩)
    · by_cases hlast : cs.getLast? = some '\r'
      · obtain ⟨as, rfl⟩ := List.getLast?_eq_some_iff.1 hlast
        rw [List.append_assoc, List.length_append]
        exact .both
      · exact .feed hlast
    · exact .carriage hhead

end LineEnd

namespace LineEnds

variable {cs ds : List Char} {c : Char} {ends : List Nat}

/-- No line ends at the start of a source. -/
theorem nil (source : List Char) : LineEnds source 0 [] :=
  ⟨.nil, fun _ => iff_of_false nofun fun h => Nat.not_le_of_gt h.1.pos h.2⟩

/-- The last line that ends does so no later than the place up to which ends are counted. -/
theorem le {source : List Char} {n : Nat} (h : LineEnds source n ends) : ends.getLastD 0 ≤ n := by
  cases hlast : ends.getLast? with
  | none => simp [List.getLastD_eq_getLast?, hlast]
  | some k =>
    simp only [List.getLastD_eq_getLast?, hlast, Option.getD_some]
    exact ((h.mem_iff k).1 (List.mem_of_getLast? hlast)).2

/-- The ends up to the next place. -/
theorem snoc (h : LineEnds (cs ++ c :: ds) cs.length ends) :
    LineEnds (cs ++ c :: ds) (cs.length + 1)
      (if Location.endsLine c ds then ends ++ [cs.length + 1] else ends) := by
  split
  · rename_i hends
    refine ⟨List.pairwise_append.2 ⟨h.sorted, List.pairwise_singleton _ _, ?_⟩, fun k => ?_⟩
    · intro k hk n hn
      rw [List.mem_singleton.1 hn]
      exact Nat.lt_succ_of_le ((h.mem_iff k).1 hk).2
    · rw [List.mem_append, List.mem_singleton, h.mem_iff]
      constructor
      · rintro (⟨hk, hle⟩ | rfl)
        · exact ⟨hk, Nat.le_succ_of_le hle⟩
        · exact ⟨LineEnd.endsLine_iff.2 hends, Nat.le_refl _⟩
      · rintro ⟨hk, hle⟩
        exact (Nat.le_or_eq_of_le_succ hle).imp_left fun hle => ⟨hk, hle⟩
  · rename_i hends
    refine ⟨h.sorted, fun k => (h.mem_iff k).trans (and_congr_right fun hk => ?_)⟩
    refine ⟨Nat.le_succ_of_le, fun hle => Nat.le_of_lt_succ (Nat.lt_of_le_of_ne hle ?_)⟩
    rintro rfl
    exact hends (LineEnd.endsLine_iff.1 hk)

end LineEnds

/-! ## Lines and columns -/

namespace Location

variable {ds : List Char} {c : Char}

/-- The line and the column of a place come from the ends of lines up to there. -/
theorem past_ends (before ds : List Char) :
    ∃ ends, LineEnds (before.reverse ++ ds) before.length ends ∧
      (start.past before.reverse ds).line = ends.length + 1 ∧
      (start.past before.reverse ds).column = before.length - ends.getLastD 0 + 1 := by
  induction before generalizing ds with
  | nil => exact ⟨[], .nil _, rfl, rfl⟩
  | cons c before ih =>
    obtain ⟨ends, hends, hline, hcolumn⟩ := ih (c :: ds)
    have hlast := hends.le
    rw [← before.length_reverse] at hends
    have hsnoc := hends.snoc
    rw [before.length_reverse, ← List.singleton_append, ← List.append_assoc,
      ← List.reverse_cons] at hsnoc
    refine ⟨_, hsnoc, ?_⟩
    rw [past_snoc, after, hline, hcolumn, List.length_cons]
    cases endsLine c ds with
    | true => simp
    | false => exact ⟨rfl, (congrArg (· + 1) (Nat.sub_add_comm hlast)).symm⟩

/-- Places are ordered by their lines, and those of one line by their columns. -/
def Precedes (l l' : Location) : Prop :=
  l.line < l'.line ∨ l.line = l'.line ∧ l.column < l'.column

/-- Locations are ordered. -/
theorem Precedes.trans {l l' l'' : Location} (h : l.Precedes l') (h' : l'.Precedes l'') :
    l.Precedes l'' := by
  rcases h with h | ⟨h, hc⟩
  · rcases h' with h' | ⟨h', -⟩
    · exact .inl (Nat.lt_trans h h')
    · exact .inl (h' ▸ h)
  · rcases h' with h' | ⟨h', hc'⟩
    · exact .inl (h ▸ h')
    · exact .inr ⟨h.trans h', Nat.lt_trans hc hc'⟩

/-- A character takes the location further. -/
theorem precedes_after (l : Location) (c : Char) (rest : List Char) :
    l.Precedes (l.after c rest) := by
  rw [after]
  cases endsLine c rest with
  | true => exact .inl (Nat.lt_succ_self _)
  | false => exact .inr ⟨rfl, Nat.lt_succ_self _⟩

/-- A text that is not empty takes the location further. -/
theorem precedes_past (l : Location) (c : Char) (cs ds : List Char) :
    l.Precedes (l.past (c :: cs) ds) := by
  induction cs generalizing l c with
  | nil => exact precedes_after l c ds
  | cons d cs ih => exact (precedes_after l c _).trans (ih _ d)

/-- Every line break ends a line but the first half of a pair. -/
theorem endsLine_eq_isBreak (h : ¬ (c = '\r' ∧ ds.head? = some '\n')) :
    endsLine c ds = Text.isBreak c := by
  rw [endsLine, Text.isBreak]
  by_cases hc : c = '\r'
  · have hds : ds.head? ≠ some '\n' := fun hds => h ⟨hc, hds⟩
    simp [hds]
  · simp [hc]

/-- Going back to the nearest character that breaks a line leads to the start of the line, unless
    it starts between a carriage return and its line feed. -/
theorem column_past (before ds : List Char)
    (h : ¬ (before.head? = some '\r' ∧ ds.head? = some '\n')) :
    (start.past before.reverse ds).column = (before.takeWhile (!Text.isBreak ·)).length + 1 := by
  induction before generalizing ds with
  | nil => rfl
  | cons c before ih =>
    have hends : endsLine c ds = Text.isBreak c :=
      endsLine_eq_isBreak fun hc => h ⟨congrArg some hc.1, hc.2⟩
    rw [past_snoc, after, hends]
    cases hbreak : Text.isBreak c with
    | true => simp [hbreak]
    | false =>
      have hc : ¬ (before.head? = some '\r' ∧ (c :: ds).head? = some '\n') := by
        rintro ⟨-, hc⟩
        cases hc
        cases hbreak
      simp [hbreak, ih _ hc]

end Location

namespace Cursor

variable {c : Cursor}

/-- The column of a line counts the blanks at its start, and it starts where its location says. -/
theorem columnAt_eq {before ds : List Char} (hs : c.source = before.reverse ++ ds)
    (h : ¬ (before.head? = some '\r' ∧ ds.head? = some '\n')) :
    c.columnAt (byteSize before) = leadingColumn c.tabSize 1
      (c.source.drop (before.length + 1 - (Location.start.past before.reverse ds).column)) := by
  have hsplit := split_eq hs
  rw [byteSize_reverse, List.reverse_reverse] at hsplit
  rw [columnAt, hsplit, Location.column_past before ds h, Nat.add_sub_add_right, hs]
  dsimp only
  -- What is on the line, back from the place, and what is before it.
  obtain ⟨xs, hxs⟩ : ∃ xs, before.takeWhile (!Text.isBreak ·) ++ xs = before :=
    ⟨_, List.takeWhile_append_dropWhile⟩
  generalize before.takeWhile (!Text.isBreak ·) = ys at hxs
  subst hxs
  have hlength : (ys ++ xs).length - ys.length = xs.reverse.length := by
    rw [List.length_append, List.length_reverse, Nat.add_sub_cancel_left]
  rw [hlength, List.reverse_append, List.append_assoc, List.drop_left]

/-- The offset of a cursor tells what lies on both sides of it. -/
theorem eq_of_index {before ds : List Char} (hs : c.source = before.reverse ++ ds)
    (h : c.index = byteSize before.reverse) : before = c.before ∧ ds = c.rest := by
  have hpre : before.reverse <+: c.source := ⟨ds, hs.symm⟩
  have hbefore : before.reverse = c.before.reverse :=
    eq_of_byteSize_eq hpre (List.prefix_append ..) (by rw [← h, c.index_eq, byteSize_reverse])
  rw [source, ← hbefore] at hs
  exact ⟨List.reverse_inj.1 hbefore, (List.append_cancel_left hs).symm⟩

/-- A cursor is at the start of a line where the column is one. -/
theorem atLineStart_iff (h : ¬ (c.before.head? = some '\r' ∧ c.rest.head? = some '\n')) :
    c.atLineStart ↔ (Location.start.past c.before.reverse c.rest).column = 1 := by
  rw [Location.column_past c.before c.rest h, atLineStart]
  cases c.before with
  | nil => exact iff_of_true rfl rfl
  | cons b before =>
    cases hb : Text.isBreak b <;> simp [hb]

end Cursor

namespace Location

variable {source : List Char} {a b : Nat}

/-- Going over the source leads to every location. -/
theorem exists_past (source : List Char) (offset : Nat) :
    ∃ cs ds, source = cs ++ ds ∧ of source offset = start.past cs ds := by
  obtain ⟨cs, ⟨ds, rfl⟩, hcs⟩ := boundary_lastBoundary source (min offset (byteSize source))
  refine ⟨cs, ds, rfl, ?_⟩
  rw [← SourceMap.locationAt_eq_past, hcs]
  rfl

/-- The location behind some text is had by going over it. -/
theorem of_append (cs ds : List Char) : of (cs ++ ds) (byteSize cs) = start.past cs ds := by
  have hbyte : (of (cs ++ ds) (byteSize cs)).byteOffset = byteSize cs :=
    byteOffset_of ⟨cs, List.prefix_append .., rfl⟩
  rw [← SourceMap.locationAt_eq_past]
  exact congrArg (SourceMap.ofSource (cs ++ ds)).locationAt hbyte

/-- Lines and columns tell the boundaries apart, in their order. -/
theorem precedes_of_lt (ha : Boundary source a) (hb : Boundary source b) (h : a < b) :
    (of source a).Precedes (of source b) := by
  obtain ⟨cs, hcs, rfl⟩ := ha
  obtain ⟨es, hes, rfl⟩ := hb
  obtain ⟨es, rfl⟩ := prefix_of_byteSize_le hcs hes (Nat.le_of_lt h)
  obtain ⟨ds, rfl⟩ := hes
  cases es with
  | nil => exact absurd (List.append_nil cs ▸ h) (Nat.lt_irrefl _)
  | cons e es =>
    rw [of_append (cs ++ e :: es) ds, past_append, List.append_assoc, of_append]
    exact precedes_past _ e es ds

/-- The location of an offset is at the last boundary that is neither past the offset nor past
    the source. Its own offset counts the characters before it, its line is one more than the lines
    that end up to there, and its column one more than the characters behind the last of these
    ends. Unless it is between a carriage return and its line feed, a cursor counts the blanks of a
    line that starts at the same place, and it is at the start of a line just when the column is
    one. Lines and columns tell the boundaries apart, in their order. -/
theorem of_exact (source : List Char) :
    (∀ offset, Boundary source (of source offset).byteOffset ∧
      (of source offset).byteOffset ≤ min offset (byteSize source) ∧
      ∀ b, Boundary source b → b ≤ min offset (byteSize source) →
        b ≤ (of source offset).byteOffset) ∧
    (∀ offset, ∃ cs ds ends, source = cs ++ ds ∧
      byteSize cs = (of source offset).byteOffset ∧
      (of source offset).offset = cs.length ∧
      LineEnds source cs.length ends ∧
      (of source offset).line = ends.length + 1 ∧
      (of source offset).column = cs.length - ends.getLastD 0 + 1 ∧
      (¬ (cs.getLast? = some '\r' ∧ ds.head? = some '\n') →
        ∀ c : Cursor, c.source = source →
          c.columnAt (of source offset).byteOffset =
            leadingColumn c.tabSize 1 (source.drop (ends.getLastD 0)) ∧
          (c.index = (of source offset).byteOffset →
            (c.atLineStart ↔ (of source offset).column = 1)))) ∧
    ∀ a b, Boundary source a → Boundary source b → a < b →
      (of source a).Precedes (of source b) := by
  refine ⟨fun offset => ⟨boundary_of source offset, lastBoundary_le .., fun b => le_lastBoundary⟩,
    fun offset => ?_, fun a b => precedes_of_lt⟩
  · obtain ⟨cs, ds, rfl, hof⟩ := exists_past source offset
    -- What is past is gone over from the last character to the first.
    obtain ⟨before, rfl⟩ : ∃ before, cs = before.reverse := ⟨cs.reverse, cs.reverse_reverse.symm⟩
    obtain ⟨ends, hends, hline, hcolumn⟩ := past_ends before ds
    have hlast := hends.le
    rw [hof]
    simp only [byteOffset_past, offset_past, start, Nat.zero_add]
    refine ⟨before.reverse, ds, ends, rfl, rfl, rfl, before.length_reverse.symm ▸ hends, hline,
      before.length_reverse.symm ▸ hcolumn, fun h c hs => ⟨?_, fun hindex => ?_⟩⟩
    · rw [List.getLast?_reverse] at h
      rw [byteSize_reverse, Cursor.columnAt_eq hs h, hcolumn, hs,
        (by omega : before.length + 1 - (before.length - ends.getLastD 0 + 1) = ends.getLastD 0)]
    · rw [List.getLast?_reverse] at h
      obtain ⟨rfl, rfl⟩ := Cursor.eq_of_index hs hindex
      exact Cursor.atLineStart_iff h

/-- A line that is indented, behind one that ends with both characters. -/
def indented : List Char := ['a', '\r', '\n', ' ', 'b']

/-- The second line starts behind three characters. Its first one is a blank, so its column of
    indentation is two, and the character behind it is in column two as well. -/
theorem of_exact_indented :
    Boundary indented 3 ∧ Boundary indented 4 ∧ (of indented 3).Precedes (of indented 4) ∧
      of indented 4 = ⟨4, 4, 2, 2⟩ ∧
      ((Cursor.ofChars indented 4).skip 3).atLineStart ∧
      ((Cursor.ofChars indented 4).skip 3).columnAt 3 = 2 := by
  obtain ⟨-, hat, hprecedes⟩ := of_exact indented
  have h₃ : Boundary indented 3 := ⟨['a', '\r', '\n'], ⟨_, rfl⟩, rfl⟩
  have h₄ : Boundary indented 4 := ⟨['a', '\r', '\n', ' '], ⟨_, rfl⟩, rfl⟩
  obtain ⟨cs, ds, ends, hs, hbyte, -, -, -, -, hcursor⟩ := hat 3
  have hcs : cs = ['a', '\r', '\n'] :=
    eq_of_byteSize_eq ⟨ds, hs.symm⟩ (⟨_, rfl⟩ : ['a', '\r', '\n'] <+: indented) hbyte
  subst hcs
  obtain ⟨-, hline⟩ := hcursor nofun ((Cursor.ofChars indented 4).skip 3) rfl
  exact ⟨h₃, h₄, hprecedes 3 4 h₃ h₄ (by decide), by decide +kernel,
    (hline rfl).2 (by decide +kernel), by decide⟩

end Location
end Dialogue
