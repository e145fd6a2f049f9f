import Dialogue.Proofs.Cursor.Place

/-!
# Going over a source

A source map finds the location of a boundary in its table. The location can also be had by going
over the source from its start, one character after the other (`Location.past`), and this is how
its line and its column are reasoned about. Both are the same (`SourceMap.locationAt_eq_past`).

The table of a source holds what it holds of the lines up to a place, and then the starts of the
lines behind that place (`SourceMap.exists_starts`). Halving finds the last entry of the first part
(`bisect_eq`), and this is where the line of the place starts.
-/

namespace Dialogue

/-! ## Searching a table -/

section

variable {table : Array Nat} {x k base size : Nat}

/-- Halving finds the last entry that is not above `x`, if these are the first `k` ones. -/
theorem bisect_eq (h : ∀ i < base + size, x < table.getD i 0 ↔ k ≤ i) (hbase : base < k)
    (hk : k ≤ base + size) : bisect table x base size = k - 1 := by
  fun_induction bisect table x base size with
  | case1 base size hsize half hlt ih =>
    -- The entry in the middle is above `x`, so the last one that is not lies before it.
    have hle : k ≤ base + half := (h _ (by omega)).1 hlt
    exact ih (fun i hi => h i (by omega)) hbase (by omega)
  | case2 base size hsize half hnot ih =>
    have hlt : base + half < k := Nat.lt_of_not_le (mt (h _ (by omega)).2 hnot)
    exact ih (fun i hi => h i (by omega)) hlt (by omega)
  | case3 base size hsize => omega

/-- An entry of the table is that of the list. -/
theorem getD_toArray (entries : List Nat) (i : Nat) :
    entries.toArray.getD i 0 = entries[i]?.getD 0 := by
  rw [Array.getD_eq_getD_getElem?, List.getElem?_toArray]

/-- If the first entries are not above `x`, and the others are, then `x` tells them apart. -/
theorem lt_getD_append_iff {as bs : List Nat} (has : ∀ a ∈ as, a ≤ x) (hbs : ∀ b ∈ bs, x < b)
    {i : Nat} (hi : i < (as ++ bs).length) : x < (as ++ bs).toArray.getD i 0 ↔ as.length ≤ i := by
  rw [getD_toArray, List.getElem?_eq_getElem hi, Option.getD_some, List.getElem_append]
  split
  · rename_i hlt
    exact iff_of_false (Nat.not_lt.2 (has _ (List.getElem_mem hlt))) (Nat.not_le.2 hlt)
  · rename_i hnot
    exact iff_of_true (hbs _ (List.getElem_mem _)) (Nat.le_of_not_lt hnot)

/-- The search finds `x`, or the index behind the last entry that is below it. -/
theorem search_eq (h : ∀ i < table.size, x < table.getD i 0 ↔ k ≤ i) (hpos : 0 < k)
    (hk : k ≤ table.size) :
    search table x = if table.getD (k - 1) 0 = x then .ok (k - 1) else .error k := by
  have hbisect : bisect table x 0 table.size = k - 1 :=
    bisect_eq (by rwa [Nat.zero_add]) hpos (by rwa [Nat.zero_add])
  have hle : table.getD (k - 1) 0 ≤ x :=
    Nat.le_of_not_lt fun hlt => absurd ((h _ (by omega)).1 hlt) (by omega)
  have hsome : table.isEmpty = false :=
    Array.isEmpty_eq_false_iff.2 (Array.size_pos_iff.1 (Nat.lt_of_lt_of_le hpos hk))
  rw [search, hsome, if_neg Bool.false_ne_true, hbisect]
  dsimp only
  split
  · rfl
  · rename_i hne
    rw [if_pos (Nat.lt_of_le_of_ne hle hne), Nat.sub_add_cancel hpos]

/-- In either case the line is that of the last entry that is not above `x`. -/
theorem SourceMap.lineIndex_eq {m : SourceMap}
    (h : ∀ i < m.lineStarts.size, x < m.lineStarts.getD i 0 ↔ k ≤ i) (hpos : 0 < k)
    (hk : k ≤ m.lineStarts.size) : m.lineIndex x = k - 1 := by
  rw [lineIndex, search_eq h hpos hk]
  by_cases hfound : m.lineStarts.getD (k - 1) 0 = x
  · rw [if_pos hfound]
  · rw [if_neg hfound]

end

/-! ## Places -/

namespace Location

/-- The start of a source. -/
def start : Location := ⟨0, 0, 1, 1⟩

/-- The place after the character `c`, which `rest` follows. -/
def after (l : Location) (c : Char) (rest : List Char) : Location :=
  let ends := endsLine c rest
  ⟨l.offset + 1, l.byteOffset + c.utf8Size, if ends then l.line + 1 else l.line,
    if ends then 1 else l.column + 1⟩

/-- The place behind the characters of the first list, which the second one follows. -/
def past : Location → List Char → List Char → Location
  | l, [], _ => l
  | l, c :: cs, ds => (l.after c (cs ++ ds)).past cs ds

/-- Going over two texts is going over the one and then the other. -/
theorem past_append (l : Location) (cs ds es : List Char) :
    l.past (cs ++ ds) es = (l.past cs (ds ++ es)).past ds es := by
  induction cs generalizing l with
  | nil => rfl
  | cons c cs ih =>
    rw [List.cons_append, past, past, ih, List.append_assoc]

/-- The last character is gone over last. -/
theorem past_snoc (l : Location) (before ds : List Char) (c : Char) :
    l.past (c :: before).reverse ds = (l.past before.reverse (c :: ds)).after c ds := by
  rw [List.reverse_cons, past_append]
  rfl

/-- Each character adds one to the offset. -/
theorem offset_past (l : Location) (cs ds : List Char) :
    (l.past cs ds).offset = l.offset + cs.length := by
  induction cs generalizing l with
  | nil => rfl
  | cons c cs ih =>
    rw [past, ih, List.length_cons]
    exact Nat.add_right_comm ..

/-- The bytes of a text are added to the offset in bytes. -/
theorem byteOffset_past (l : Location) (cs ds : List Char) :
    (l.past cs ds).byteOffset = l.byteOffset + byteSize cs := by
  induction cs generalizing l with
  | nil => rfl
  | cons c cs ih =>
    rw [past, ih, byteSize]
    exact Nat.add_assoc ..

end Location

/-! ## Locations from the table -/

/-- The characters up to a place fit into the bytes up to there, and no others do. -/
theorem Cursor.fitting_append (cs ds : List Char) :
    fitting (byteSize cs) (cs ++ ds) = cs.length := by
  induction cs with
  | nil =>
    cases ds with
    | nil => rfl
    | cons d ds => exact if_neg (Nat.not_le_of_gt d.utf8Size_pos)
  | cons c cs ih =>
    rw [List.cons_append, fitting, byteSize, if_pos (Nat.le_add_right _ _),
      Nat.add_sub_cancel_left, ih, List.length_cons]

/-- The characters that fit up to a place are those before it. -/
theorem Cursor.fitting_reverse_append (before ds : List Char) :
    fitting (byteSize before) (before.reverse ++ ds) = before.length := by
  rw [← byteSize_reverse, fitting_append, List.length_reverse]

namespace SourceMap

variable {before ds line prior : List Char} {starts : List Nat}

/-- The lines that start behind a place start after it. -/
theorem lt_of_mem_startsFrom {index i : Nat} {rest : List Char} (h : i ∈ startsFrom index rest) :
    index < i := by
  induction rest generalizing index with
  | nil => cases h
  | cons c rest ih =>
    have hnext : index < index + c.utf8Size := Nat.lt_add_of_pos_right c.utf8Size_pos
    rw [startsFrom] at h
    split at h
    · rcases List.mem_cons.1 h with rfl | h
      · exact hnext
      · exact Nat.lt_trans hnext (ih h)
    · exact Nat.lt_trans hnext (ih h)

/-- The first entries of the table are where the lines start up to a place. The last one of these
    lines starts behind `prior`. -/
structure Starts (before ds : List Char) (starts : List Nat) (line prior : List Char) : Prop where
  /-- What is on the line, and what is before it. -/
  before_eq : before = line ++ prior
  /-- The other entries are where the lines behind the place start. -/
  table : 0 :: startsFrom 0 (before.reverse ++ ds) = starts ++ startsFrom (byteSize before) ds
  /-- These lines do not start after the place. -/
  le : ∀ i ∈ starts, i ≤ byteSize before
  /-- The line of the place starts behind what is before it. -/
  last : starts.getLast? = some (byteSize prior)

/-- Going over the source counts the entries of the table, and the characters of the line. -/
theorem exists_starts (before ds : List Char) : ∃ starts line prior,
    Starts before ds starts line prior ∧
      (Location.start.past before.reverse ds).line = starts.length ∧
      (Location.start.past before.reverse ds).column = line.length + 1 := by
  induction before generalizing ds with
  | nil =>
    exact ⟨[0], [], [], ⟨rfl, rfl, List.forall_mem_singleton.2 (Nat.le_refl 0), rfl⟩, rfl, rfl⟩
  | cons c before ih =>
    obtain ⟨starts, line, prior, h, hline, hcolumn⟩ := ih (c :: ds)
    have hnext : byteSize before + c.utf8Size = byteSize (c :: before) := Nat.add_comm ..
    have hsource : (c :: before).reverse ++ ds = before.reverse ++ c :: ds := by
      rw [List.reverse_cons, List.append_assoc, List.singleton_append]
    have htable := h.table
    rw [startsFrom, hnext, ← hsource] at htable
    have hle : ∀ i ∈ starts, i ≤ byteSize (c :: before) := fun i hi =>
      Nat.le_trans (h.le i hi) (Nat.le_add_left _ _)
    rw [Location.past_snoc, Location.after, hline, hcolumn]
    cases hends : Location.endsLine c ds with
    | true =>
      -- The place is at the start of a line, with nothing behind it on that line.
      refine ⟨starts ++ [byteSize (c :: before)], [], c :: before, ⟨rfl, ?_, ?_, ?_⟩, ?_, rfl⟩
      · rw [htable, hends, if_pos rfl, List.append_assoc, List.singleton_append]
      · exact List.forall_mem_append.2 ⟨hle, List.forall_mem_singleton.2 (Nat.le_refl _)⟩
      · rw [List.getLast?_concat]
      · rw [List.length_append]
        rfl
    | false =>
      refine ⟨starts, c :: line, prior, ⟨?_, ?_, hle, h.last⟩, rfl, rfl⟩
      · rw [h.before_eq, List.cons_append]
      · rw [htable, hends, if_neg Bool.false_ne_true]

namespace Starts

/-- There is a start of a line. -/
theorem pos (h : Starts before ds starts line prior) : 0 < starts.length := by
  refine List.length_pos_iff.2 ?_
  rintro rfl
  cases h.last

/-- The table has the starts up to a place, and those behind it. -/
theorem lineStarts_eq (h : Starts before ds starts line prior) :
    (ofSource (before.reverse ++ ds)).lineStarts =
      (starts ++ startsFrom (byteSize before) ds).toArray :=
  congrArg List.toArray h.table

/-- The line of a place is found in the table. -/
theorem lineIndex_eq (h : Starts before ds starts line prior) :
    (ofSource (before.reverse ++ ds)).lineIndex (byteSize before) = starts.length - 1 := by
  refine SourceMap.lineIndex_eq (fun i hi => ?_) h.pos ?_
  · rw [h.lineStarts_eq] at hi ⊢
    exact lt_getD_append_iff h.le (fun i => lt_of_mem_startsFrom) hi
  · rw [h.lineStarts_eq, List.size_toArray, List.length_append]
    exact Nat.le_add_right _ _

/-- The start of the line of a place is found in the table. -/
theorem lineStart_eq (h : Starts before ds starts line prior) :
    (ofSource (before.reverse ++ ds)).lineStarts.getD (starts.length - 1) 0 = byteSize prior := by
  rw [h.lineStarts_eq, getD_toArray, List.getElem?_append_left (Nat.sub_one_lt_of_lt h.pos),
    ← List.getLast?_eq_getElem?, h.last]
  rfl

/-- What lies between the start of the line and the place is what is on the line. -/
theorem fitting_eq (h : Starts before ds starts line prior) :
    Cursor.fitting (byteSize before - byteSize prior) ((before.reverse ++ ds).drop
      (Cursor.fitting (byteSize prior) (before.reverse ++ ds))) = line.length := by
  rw [h.before_eq, List.reverse_append, List.append_assoc, Cursor.fitting_reverse_append,
    ← prior.length_reverse, List.drop_left, byteSize_append, Nat.add_sub_cancel,
    Cursor.fitting_reverse_append]

end Starts

/-- The location of a boundary is the one that going over the source leads to. -/
theorem locationAt_eq_past (cs ds : List Char) :
    (ofSource (cs ++ ds)).locationAt (byteSize cs) = Location.start.past cs ds := by
  obtain ⟨before, rfl⟩ : ∃ before, cs = before.reverse := ⟨cs.reverse, cs.reverse_reverse.symm⟩
  obtain ⟨starts, line, prior, h, hline, hcolumn⟩ := exists_starts before ds
  have hsource : (ofSource (before.reverse ++ ds)).source = before.reverse ++ ds := rfl
  rw [byteSize_reverse, locationAt, h.lineIndex_eq, h.lineStart_eq, hsource, h.fitting_eq,
    Cursor.fitting_reverse_append, Nat.sub_add_cancel h.pos]
  ext
  · rw [Location.offset_past, Location.start, Nat.zero_add, List.length_reverse]
  · rw [Location.byteOffset_past, Location.start, Nat.zero_add, byteSize_reverse]
  · exact hline.symm
  · exact hcolumn.symm

end SourceMap

end Dialogue
