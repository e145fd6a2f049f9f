import Dialogue.Cursor.Location

/-!
# Places of a source

A *boundary* is the offset of a place between two characters of a source, which is the same as
a valid position of the string (`boundary_iff_isValid`). Cutting a source at a boundary takes
it apart between two characters (`Cursor.Cuts`).

A cursor is at a boundary at all times, because it is made of the characters on both sides. The
offset of its reference is only a number, so a cursor is *placed* (`Cursor.Placed`) if that
one is a boundary as well, and the column is that of its line. From a placed cursor all other
cursors of the source that are *ahead* with the same reference are placed.
-/

namespace Dialogue

/-! ## Boundaries -/

/-- The offset of a place between two characters, or at an end. -/
def Boundary (source : List Char) (offset : Nat) : Prop :=
  ∃ cs, cs <+: source ∧ byteSize cs = offset

/-- A boundary is no further than the source. -/
theorem Boundary.le {source : List Char} {offset : Nat} (h : Boundary source offset) :
    offset ≤ byteSize source := by
  obtain ⟨cs, ⟨ds, rfl⟩, rfl⟩ := h
  rw [byteSize_append]
  exact Nat.le_add_right _ _

/-- The bytes of a string are those of its characters. -/
theorem utf8ByteSize_ofList (cs : List Char) : (String.ofList cs).utf8ByteSize = byteSize cs := by
  induction cs with
  | nil => rfl
  | cons c cs ih =>
    rw [String.ofList_cons, String.utf8ByteSize_append, String.utf8ByteSize_singleton, ih, byteSize]

/-- The boundaries of a string are its valid positions. -/
theorem boundary_iff_isValid {s : String} {i : Nat} :
    Boundary s.toList i ↔ String.Pos.Raw.IsValid s ⟨i⟩ := by
  rw [String.Pos.Raw.isValid_iff_exists_append]
  constructor
  · rintro ⟨cs, ⟨ds, h⟩, rfl⟩
    refine ⟨.ofList cs, .ofList ds, ?_, ?_⟩
    · rw [← String.ofList_append, h, String.ofList_toList]
    · exact String.Pos.Raw.ext (utf8ByteSize_ofList cs).symm
  · rintro ⟨s₁, s₂, rfl, h⟩
    refine ⟨s₁.toList, ⟨s₂.toList, String.toList_append.symm⟩, ?_⟩
    rw [← utf8ByteSize_ofList, String.ofList_toList]
    exact (congrArg String.Pos.Raw.byteIdx h).symm

section

variable {cs ds source : List Char}

/-- Only the empty text has no bytes. -/
theorem byteSize_eq_zero (h : byteSize cs = 0) : cs = [] := by
  have := length_le_byteSize cs
  exact List.eq_nil_of_length_eq_zero (by omega)

/-- Of two starts of a source the shorter one is a start of the other. -/
theorem prefix_of_byteSize_le (hc : cs <+: source) (hd : ds <+: source)
    (h : byteSize cs ≤ byteSize ds) : cs <+: ds := by
  obtain hcd | ⟨es, rfl⟩ := List.prefix_or_prefix_of_prefix hc hd
  · exact hcd
  · rw [byteSize_append] at h
    have hes : es = [] := byteSize_eq_zero (by omega)
    exact ⟨[], by rw [hes, List.append_nil, List.append_nil]⟩

/-- Two beginnings of a source of the same size are the same. -/
theorem eq_of_byteSize_eq (hc : cs <+: source) (hd : ds <+: source)
    (h : byteSize cs = byteSize ds) : cs = ds := by
  obtain ⟨es, rfl⟩ := prefix_of_byteSize_le hc hd (Nat.le_of_eq h)
  rw [byteSize_append] at h
  rw [byteSize_eq_zero (by omega : byteSize es = 0), List.append_nil]

end

namespace Cursor

/-! ## Cutting a source -/

/-- The source that a cursor stands in. -/
def source (c : Cursor) : List Char := c.before.reverse ++ c.rest

/-- Going back to a boundary cuts the source there. -/
theorem splitBack_eq {cs ds before rest : List Char} {index : Nat}
    (hi : index = byteSize before) (hs : before.reverse ++ rest = cs ++ ds)
    (h : byteSize cs ≤ index) : splitBack (byteSize cs) index before rest = (cs.reverse, ds) := by
  induction before generalizing index rest with
  | nil =>
    obtain rfl : cs = [] := byteSize_eq_zero (by simp [hi, byteSize] at h; omega)
    exact congrArg _ hs
  | cons b before ih =>
    have hcs : cs <+: (b :: before).reverse ++ rest := hs ▸ List.prefix_append cs ds
    have hbefore : (b :: before).reverse <+: (b :: before).reverse ++ rest := List.prefix_append ..
    rw [splitBack]
    split
    · rename_i hlt
      have hle : byteSize cs ≤ byteSize before := by
        have hpre := prefix_of_byteSize_le hcs hbefore (by rw [byteSize_reverse]; omega)
        rw [List.reverse_cons, List.prefix_concat_iff] at hpre
        obtain rfl | hpre := hpre
        · rw [byteSize_append, byteSize_reverse] at hlt
          simp only [hi, byteSize] at hlt
          omega
        · obtain ⟨es, hes⟩ := hpre
          rw [← byteSize_reverse before, ← hes, byteSize_append]
          exact Nat.le_add_right _ _
      refine ih (by simp [hi, byteSize]) ?_ (by simp [hi, byteSize]; omega)
      rw [← hs, List.reverse_cons, List.append_assoc, List.singleton_append]
    · have heq : cs = (b :: before).reverse :=
        eq_of_byteSize_eq hcs hbefore (by rw [byteSize_reverse]; omega)
      subst heq
      rw [List.reverse_reverse, List.append_cancel_left hs]

/-- Going ahead to a boundary cuts the source there. -/
theorem splitAhead_eq {cs ds before rest : List Char} {index : Nat}
    (hi : index = byteSize before) (hs : before.reverse ++ rest = cs ++ ds)
    (h : index ≤ byteSize cs) : splitAhead (byteSize cs) index before rest = (cs.reverse, ds) := by
  induction rest generalizing index before with
  | nil =>
    have hcs : cs <+: before.reverse := by
      rw [← List.append_nil before.reverse, hs]
      exact List.prefix_append ..
    have heq : cs = before.reverse := eq_of_byteSize_eq hcs (List.prefix_refl _) (by
      obtain ⟨es, hes⟩ := hcs
      have := congrArg byteSize hes
      rw [byteSize_append, byteSize_reverse] at this
      rw [byteSize_reverse]
      omega)
    subst heq
    rw [splitAhead, List.reverse_reverse, List.append_cancel_left hs]
  | cons r rest ih =>
    have hbefore : before.reverse <+: cs ++ ds := hs ▸ List.prefix_append ..
    -- Two prefixes of one text are comparable by their size: `es` is what has to be passed yet.
    have hpre := prefix_of_byteSize_le hbefore (List.prefix_append cs ds)
      (by rw [byteSize_reverse]; omega)
    obtain ⟨es, rfl⟩ := hpre
    rw [List.append_assoc] at hs
    have hrest := List.append_cancel_left hs
    rw [splitAhead]
    cases es with
    | nil =>
      rw [List.append_nil, byteSize_reverse, if_neg (by have := r.utf8Size_pos; omega)]
      rw [List.reverse_reverse, hrest, List.nil_append]
    | cons e es =>
      obtain ⟨rfl, rfl⟩ := List.cons.inj hrest
      rw [if_pos (by simp only [byteSize_append, byteSize_reverse, byteSize]; omega)]
      have hcons : before.reverse ++ r :: es = (r :: before).reverse ++ es := by
        rw [List.reverse_cons, List.append_assoc, List.singleton_append]
      rw [hcons] at ih ⊢
      refine @ih (r :: before) _ ?_ (List.append_assoc ..).symm ?_
      · rw [byteSize, hi, Nat.add_comm]
      simp only [byteSize_append, byteSize_reverse, byteSize]
      omega

/-- A source is cut where the offset of a boundary is. -/
theorem split_eq {c : Cursor} {cs ds : List Char} (h : c.source = cs ++ ds) :
    c.split (byteSize cs) = (cs.reverse, ds) := by
  rw [split]
  split
  · exact splitBack_eq c.index_eq h (by omega)
  · exact splitAhead_eq c.index_eq h (by omega)

/-- Cutting the source at an offset takes it apart between two characters, at this offset. -/
def Cuts (c : Cursor) (offset : Nat) : Prop :=
  (c.split offset).1.reverse ++ (c.split offset).2 = c.source ∧
    byteSize (c.split offset).1 = offset

/-- A source is cut at each of its boundaries. -/
theorem cuts_of_boundary {c : Cursor} {offset : Nat} (h : Boundary c.source offset) :
    c.Cuts offset := by
  obtain ⟨cs, ⟨ds, hs⟩, rfl⟩ := h
  rw [Cuts, split_eq hs.symm, List.reverse_reverse, byteSize_reverse]
  exact ⟨hs, rfl⟩

/-- The column of a line is that of the source, wherever the cursor is. -/
theorem columnAt_congr {c c' : Cursor} {offset : Nat} (hs : c'.source = c.source)
    (ht : c'.tabSize = c.tabSize) (h : Boundary c.source offset) :
    c'.columnAt offset = c.columnAt offset := by
  obtain ⟨cs, ⟨ds, hcs⟩, rfl⟩ := h
  rw [columnAt, columnAt, split_eq hcs.symm, split_eq (hs.trans hcs.symm), ht]

/-! ## Places ahead -/

/-- The second cursor is further ahead in the same source, or at the same place. -/
structure Ahead (c c' : Cursor) : Prop where
  /-- The tab stops are the same. -/
  tabSize : c'.tabSize = c.tabSize
  /-- What was ahead of the first and is not ahead of the second lies behind the second. -/
  walked : ∃ cs, c.rest = cs ++ c'.rest ∧ c'.before = cs.reverse ++ c.before

/-- An offset is that of a place ahead. -/
def Sees (c : Cursor) (offset : Nat) : Prop := ∃ cs, cs <+: c.rest ∧ offset = c.index + byteSize cs

section

variable {c c' c'' : Cursor} {i : Nat} {r : Reference}

/-- A place is ahead of itself. -/
theorem Ahead.refl (c : Cursor) : c.Ahead c := ⟨rfl, [], rfl, rfl⟩

/-- What is ahead of a place ahead is ahead. -/
theorem Ahead.trans (h : c.Ahead c') (h' : c'.Ahead c'') : c.Ahead c'' := by
  obtain ⟨ht, cs, hr, hb⟩ := h
  obtain ⟨ht', cs', hr', hb'⟩ := h'
  refine ⟨ht'.trans ht, cs ++ cs', ?_, ?_⟩
  · rw [hr, hr', List.append_assoc]
  · rw [hb', hb, List.reverse_append, List.append_assoc]

/-- Skipping gets ahead. -/
theorem ahead_skip (n : Nat) (c : Cursor) : c.Ahead (c.skip n) :=
  ⟨rfl, c.rest.take n, (List.take_append_drop n c.rest).symm, rfl⟩

/-- Another reference does not move the cursor. -/
theorem ahead_withReference (r : Reference) (c : Cursor) : c.Ahead (c.withReference r) :=
  ⟨rfl, [], rfl, rfl⟩

/-- The reference does not matter for what is ahead. -/
theorem Ahead.withReference (h : c.Ahead c') (r : Reference) : c.Ahead (c'.withReference r) :=
  h.trans (ahead_withReference r c')

/-- What is ahead with another reference is ahead. -/
theorem Ahead.of_withReference (h : (c.withReference r).Ahead c') : c.Ahead c' :=
  (ahead_withReference r c).trans h

/-- The source stays the same. -/
theorem Ahead.source_eq (h : c.Ahead c') : c'.source = c.source := by
  obtain ⟨-, cs, hr, hb⟩ := h
  rw [source, source, hr, hb, List.reverse_append, List.reverse_reverse, List.append_assoc]

/-- The offset does not decrease. -/
theorem Ahead.index_le (h : c.Ahead c') : c.index ≤ c'.index := by
  obtain ⟨-, cs, -, hb⟩ := h
  rw [c.index_eq, c'.index_eq, hb, byteSize_append]
  exact Nat.le_add_left _ _

/-- What remains does not increase. -/
theorem Ahead.remaining_le (h : c.Ahead c') : c'.remaining ≤ c.remaining := by
  obtain ⟨-, cs, hr, -⟩ := h
  rw [c.remaining_eq, c'.remaining_eq, hr, byteSize_append]
  exact Nat.le_add_left _ _

/-- What the offset gains, the remaining bytes lose. -/
theorem Ahead.index_add_remaining (h : c.Ahead c') :
    c'.index + c'.remaining = c.index + c.remaining := by
  obtain ⟨-, cs, hr, hb⟩ := h
  rw [c.index_eq, c'.index_eq, c.remaining_eq, c'.remaining_eq, hr, hb, byteSize_append,
    byteSize_append, byteSize_reverse]
  omega

/-- What is ahead is farther just if less is left there. -/
theorem Ahead.index_lt_iff (h : c.Ahead c') :
    c.index < c'.index ↔ c'.remaining < c.remaining := by
  have hsum := h.index_add_remaining
  omega

/-- What can be seen from a place ahead can be seen from here. -/
theorem Ahead.sees (h : c.Ahead c') (hi : c'.Sees i) : c.Sees i := by
  obtain ⟨-, cs, hr, hb⟩ := h
  obtain ⟨ds, ⟨es, hes⟩, rfl⟩ := hi
  refine ⟨cs ++ ds, ⟨es, by rw [hr, ← hes, List.append_assoc]⟩, ?_⟩
  rw [c.index_eq, c'.index_eq, hb, byteSize_append, byteSize_append, byteSize_reverse]
  omega

/-- A place is in its own view. -/
theorem sees_index (c : Cursor) : c.Sees c.index := ⟨[], List.nil_prefix, rfl⟩

/-- Places ahead are in view. -/
theorem Ahead.sees_index (h : c.Ahead c') : c.Sees c'.index := h.sees c'.sees_index

/-- What is in view is not behind. -/
theorem Sees.index_le (h : c.Sees i) : c.index ≤ i := by
  obtain ⟨cs, -, rfl⟩ := h
  exact Nat.le_add_right _ _

/-- What is in view is a boundary. -/
theorem Sees.boundary (h : c.Sees i) : Boundary c.source i := by
  obtain ⟨cs, ⟨ds, hds⟩, rfl⟩ := h
  refine ⟨c.before.reverse ++ cs, ⟨ds, by rw [source, ← hds, List.append_assoc]⟩, ?_⟩
  rw [byteSize_append, byteSize_reverse, c.index_eq]

/-- The offset of a cursor is a boundary. -/
theorem boundary_index (c : Cursor) : Boundary c.source c.index := c.sees_index.boundary

/-- Nothing remains at the end. -/
theorem remaining_eq_zero (h : c.atEnd) : c.remaining = 0 := by
  rw [c.remaining_eq, List.isEmpty_iff.1 h]
  rfl

/-- Something remains before a character. -/
theorem remaining_pos (h : c.rest ≠ []) : 0 < c.remaining := by
  rw [c.remaining_eq]
  exact Nat.lt_of_lt_of_le (List.length_pos_iff.2 h) (length_le_byteSize _)

end

/-! ## Placed cursors -/

/-- The reference of the cursor is a place of its source, with the column of its line. -/
structure Placed (c : Cursor) : Prop where
  /-- The place is between two characters. -/
  boundary : Boundary c.source c.reference.index
  /-- The column is that of the place. -/
  reference_eq : c.referenceAt c.reference.index = c.reference

section

variable {c c' : Cursor}

/-- A place ahead with the same reference is placed. -/
theorem Placed.ahead (hp : c.Placed) (h : c.Ahead c') (hr : c'.reference = c.reference) :
    c'.Placed := by
  refine ⟨?_, ?_⟩
  · rw [h.source_eq, hr]
    exact hp.boundary
  · rw [referenceAt, hr, columnAt_congr h.source_eq h.tabSize hp.boundary]
    exact hp.reference_eq

/-- A cursor is placed with itself as the reference. -/
theorem placed_here (c : Cursor) : (c.withReference c.here).Placed :=
  have hcolumn : (c.withReference c.here).columnAt c.index = c.columnAt c.index :=
    columnAt_congr rfl rfl c.boundary_index
  ⟨c.boundary_index, congrArg (Reference.mk c.index) hcolumn⟩

/-- The start of a source is placed. -/
theorem placed_ofChars (source : List Char) (tabSize : Nat) : (ofChars source tabSize).Placed := by
  have hs : (ofChars source tabSize).source = [] ++ source := rfl
  refine ⟨⟨[], List.nil_prefix, rfl⟩, ?_⟩
  have hsplit : (ofChars source tabSize).split 0 = ([], source) := split_eq hs
  change Reference.mk 0 ((ofChars source tabSize).columnAt 0) = _
  rw [columnAt, hsplit]
  rfl

end

end Cursor

/-! ## Locations -/

section

variable {source : List Char} {offset b : Nat}

/-- A boundary is at the start, or behind the first character and one of the rest. -/
theorem boundary_cons {c : Char} :
    Boundary (c :: source) offset ↔
      offset = 0 ∨ c.utf8Size ≤ offset ∧ Boundary source (offset - c.utf8Size) := by
  constructor
  · rintro ⟨_ | ⟨d, cs⟩, h, rfl⟩
    · exact .inl rfl
    · obtain ⟨rfl, hcs⟩ := List.cons_prefix_cons.1 h
      exact .inr ⟨Nat.le_add_right _ _, cs, hcs, (Nat.add_sub_cancel_left _ _).symm⟩
  · rintro (rfl | ⟨hle, cs, h, hcs⟩)
    · exact ⟨[], List.nil_prefix, rfl⟩
    · refine ⟨c :: cs, List.cons_prefix_cons.2 ⟨rfl, h⟩, ?_⟩
      rw [byteSize, hcs, Nat.add_sub_cancel' hle]

/-- The check for boundaries finds just these. -/
theorem isBoundary_iff : isBoundary source offset ↔ Boundary source offset := by
  fun_induction isBoundary source offset with
  | case1 source => exact iff_of_true rfl ⟨[], List.nil_prefix, rfl⟩
  | case2 offset => exact iff_of_false nofun fun h => Nat.not_succ_le_zero _ h.le
  | case3 c cs offset ih =>
    rw [Bool.and_eq_true, decide_eq_true_iff, ih, boundary_cons]
    exact ⟨.inr, fun h => h.resolve_left (Nat.succ_ne_zero _)⟩

/-- The last boundary is one. -/
theorem boundary_lastBoundary (source : List Char) (offset : Nat) :
    Boundary source (lastBoundary source offset) := by
  induction offset with
  | zero => exact ⟨[], List.nil_prefix, rfl⟩
  | succ offset ih =>
    rw [lastBoundary]
    split
    · rename_i h
      exact isBoundary_iff.1 h
    · exact ih

/-- The last boundary is no further than asked for. -/
theorem lastBoundary_le (source : List Char) (offset : Nat) :
    lastBoundary source offset ≤ offset := by
  induction offset with
  | zero => exact Nat.le_refl 0
  | succ offset ih =>
    rw [lastBoundary]
    split
    · exact Nat.le_refl _
    · exact Nat.le_succ_of_le ih

/-- Every boundary up to the offset is before it. -/
theorem le_lastBoundary (hb : Boundary source b) (h : b ≤ offset) :
    b ≤ lastBoundary source offset := by
  induction offset with
  | zero => exact h
  | succ offset ih =>
    rw [lastBoundary]
    split
    · exact h
    · rename_i hnot
      refine ih (Nat.le_of_lt_succ (Nat.lt_of_le_of_ne h ?_))
      rintro rfl
      exact hnot (isBoundary_iff.2 hb)

end

namespace Location

/-- Every location is at a boundary. -/
theorem boundary_of (source : List Char) (offset : Nat) :
    Boundary source (Location.of source offset).byteOffset :=
  boundary_lastBoundary ..

/-- The location of a boundary is there. -/
theorem byteOffset_of {source : List Char} {offset : Nat} (h : Boundary source offset) :
    (Location.of source offset).byteOffset = offset :=
  Nat.le_antisymm (Nat.le_trans (lastBoundary_le ..) (Nat.min_le_left ..))
    (le_lastBoundary h (Nat.le_min.2 ⟨Nat.le_refl _, h.le⟩))

end Location

end Dialogue
