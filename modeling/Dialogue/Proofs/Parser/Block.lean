import Dialogue.Proofs.Cursor.Extend
import Dialogue.Proofs.Parser.Run
import Dialogue.Proofs.Parser.Scan

/-!
# Blocks

An item of a block ends its line. The next item is on the next line that is not blank
(`Cursor.NextLine`), at its first character, if that line continues the block. So the items are a
chain (`Parser.BlockLines`), and what is found behind the last of them, or in its place, decides
what the block replies (`Parser.BlockEnd`).

If an item takes something, the next one is on a later line (`Cursor.LaterLine`), so a block comes
to an end. Where its source ends it does not ask how many items are owed (`Parser.block_reply`).
-/

namespace Dialogue

open Dialogue.Parser

namespace Cursor

variable {c d e : Cursor} {w zs : List Char}

/-! ## Lines ahead -/

/-- The second cursor is at the start of the first line ahead that is not blank, or at the end of
    the source if there is none. -/
structure NextLine (c d : Cursor) : Prop where
  /-- Nothing but blanks and line breaks lies between. -/
  between : ∃ w, c.rest = w ++ d.rest ∧ d = c.skip w.length ∧ ∀ x ∈ w, Text.isLayout x
  /-- The line has something on it. -/
  starts : d.rest = [] ∨
    d.atLineStart ∧ ∃ x ∈ (d.skipWhile Text.isBlank).rest.head?, Text.isLayout x = false

/-- Where something is ahead the source has not ended. -/
theorem not_atEnd (h : c.rest ≠ []) : c.atEnd = false := by
  rw [atEnd, List.isEmpty_eq_false_iff]
  exact h

/-- The second cursor is on a line further ahead that is not blank, at its first character that is
    not blank. -/
structure LaterLine (c d : Cursor) : Prop where
  /-- It is ahead. -/
  ahead : c.Ahead d
  /-- Behind the last line break there are only blanks. -/
  between : ∃ w x b, c.rest = w ++ x :: (b ++ d.rest) ∧ Text.isBreak x ∧ ∀ y ∈ b, Text.isBlank y
  /-- The line has something on it. -/
  first : ∃ x ∈ d.rest.head?, Text.isLayout x = false

/-- A line later than a place ahead is later. -/
theorem LaterLine.of_ahead (h : c.Ahead d) (hlater : d.LaterLine e) : c.LaterLine e := by
  obtain ⟨w, x, b, hw, hx, hb⟩ := hlater.between
  obtain ⟨cs, hcs, -⟩ := h.walked
  refine ⟨h.trans hlater.ahead, ⟨cs ++ w, x, b, ?_, hx, hb⟩, hlater.first⟩
  rw [hcs, hw, List.append_assoc]

/-- The next line is ahead. -/
theorem NextLine.ahead (h : c.NextLine d) : c.Ahead d := by
  obtain ⟨w, -, rfl, -⟩ := h.between
  exact ahead_skip _ c

/-- Something was taken before the next line starts, so a line break was taken as well. -/
theorem NextLine.laterLine {c' : Cursor} (h : c'.NextLine d) (hc : c.Ahead c')
    (hless : c.index < c'.index) (hne : d.rest ≠ []) :
    c.LaterLine (d.skipWhile Text.isBlank) := by
  obtain ⟨hstart, hfirst⟩ := h.starts.resolve_left hne
  have hd : c.Ahead d := hc.trans h.ahead
  refine ⟨hd.trans (ahead_skip _ d), ?_, hfirst⟩
  obtain ⟨cs, hcs, hbefore⟩ := hd.walked
  have hne_nil : cs ≠ [] := by
    rintro rfl
    have hle := h.ahead.index_le
    rw [d.index_eq, hbefore, List.reverse_nil, List.nil_append, ← c.index_eq] at hle
    omega
  -- What was taken last is what the line starts behind.
  obtain ⟨w, x, rfl⟩ := (List.eq_nil_or_concat cs).resolve_left hne_nil
  rw [List.concat_eq_append] at hcs hbefore
  refine ⟨w, x, d.rest.takeWhile Text.isBlank, ?_, ?_, List.all_eq_true.1 List.all_takeWhile⟩
  · rw [hcs, rest_skipWhile, List.takeWhile_append_dropWhile, List.append_assoc]
    rfl
  · rw [atLineStart, hbefore, List.reverse_append] at hstart
    exact hstart

/-! ## The end of a line -/

/-- White space up to a line break, or to the end, leaves nothing on its line. -/
theorem blank_of_layout (h : c.rest = w ++ zs) (hw : ∀ x ∈ w, Text.isLayout x)
    (hends : zs = [] ∨ ∃ x ∈ w, Text.isBreak x) : Blank c := by
  rw [Blank, line, rest_skipWhile, h]
  clear h
  -- The blanks are skipped, up to the first line break or to the end.
  induction w with
  | nil =>
    rw [hends.resolve_right (by simp)]
    rfl
  | cons x w ih =>
    rw [List.cons_append]
    cases hx : Text.isBlank x with
    | true =>
      rw [List.dropWhile_cons_of_pos hx]
      refine ih (fun y hy => hw y (List.mem_cons_of_mem x hy)) (hends.imp_right ?_)
      rintro ⟨y, hy, hbreak⟩
      refine ⟨y, (List.mem_cons.1 hy).resolve_left ?_, hbreak⟩
      rintro rfl
      simp [Text.not_isBreak_of_isBlank hx] at hbreak
    | false =>
      have hbreak : Text.isBreak x := by
        have h := hw x List.mem_cons_self
        rwa [Text.isLayout, hx, Bool.false_or] at h
      rw [List.dropWhile_cons_of_neg (by simp [hx]), List.takeWhile_cons_of_neg (by simp [hbreak])]

/-- Behind the end of a line the next one starts. -/
theorem nextLine_of_endsLine (h : EndsLine c) : c.NextLine (c.skip (blankLength c.rest)) := by
  obtain ⟨hrest, hnil⟩ := rest_skip_blankLength c
  by_cases hfull : c.Full
  · obtain ⟨a, b, hsplit, ha, hlayout, -⟩ := breaks_split c.rest
    have hlength : blankLength c.rest = a.length := by rw [ha, hfull.blankLength_eq]
    refine ⟨⟨a, ?_, by rw [hlength], hlayout⟩, .inr ⟨hfull.atLineStart_skip h, ?_⟩⟩
    · rw [hlength, rest_skip_append hsplit, ← hsplit]
    · rw [hrest]
      cases hhead : c.rest.dropWhile Text.isLayout with
      | nil => exact absurd hhead hfull
      | cons x xs => exact ⟨x, rfl, head_dropWhile x (by rw [hhead]; rfl)⟩
  · have hall : ∀ x ∈ c.rest, Text.isLayout x := isLayout_of_not_full hfull
    have hend : (c.skip (blankLength c.rest)).rest = [] := Classical.not_not.1 (mt hnil hfull)
    refine ⟨⟨c.rest, by rw [hend, List.append_nil], ?_, hall⟩, .inl hend⟩
    rw [blankLength, if_pos (List.all_eq_true.2 hall)]

/-- A line that another one comes next to ends, and the other one is behind the blank lines. -/
theorem NextLine.endsLine (h : c.NextLine d) : EndsLine c ∧ d = c.skip (blankLength c.rest) := by
  obtain ⟨w, hrest, hskip, hw⟩ := h.between
  obtain hend | ⟨hstart, x, hx, hlayout⟩ := h.starts
  · rw [hend, List.append_nil] at hrest
    refine ⟨.inr (blank_of_layout (by rw [hrest, List.append_nil]) hw (.inl rfl)), ?_⟩
    rw [hskip, blankLength, hrest, if_pos (List.all_eq_true.2 hw)]
  · -- The line ahead has something behind its blanks.
    obtain ⟨xs, hxs⟩ : ∃ xs, (d.skipWhile Text.isBlank).rest = x :: xs :=
      ⟨_, (List.head?_eq_some_iff.1 hx).choose_spec⟩
    have hd : d.rest = d.rest.takeWhile Text.isBlank ++ x :: xs := by
      rw [← hxs, rest_skipWhile, List.takeWhile_append_dropWhile]
    have hnone : blankLength d.rest = 0 := by
      rw [hd]
      exact blankLength_of_line (List.all_eq_true.1 List.all_takeWhile) hlayout
    obtain rfl | ⟨v, y, rfl⟩ := List.eq_nil_or_concat w
    · obtain rfl : d = c := by rw [hskip, List.length_nil, skip_zero]
      exact ⟨.inl hstart, by rw [hnone, skip_zero]⟩
    · -- What was taken last is a line break, as a line starts behind it.
      have hy : Text.isBreak y := by
        rw [hskip, atLineStart, before_skip, hrest, List.take_left] at hstart
        simpa using hstart
      refine ⟨.inr (blank_of_layout hrest hw (.inr ⟨y, by simp, hy⟩)), ?_⟩
      have hv : ∀ z ∈ v, Text.isLayout z := fun z hz => hw z (by simp [hz])
      have hsplit : c.rest = v ++ y :: d.rest := by rw [hrest]; simp
      rw [hsplit, blankLength_append hv hy, hnone, hskip]
      simp

end Cursor

namespace Parser

variable {σ α β : Type} {item : Parser σ α} {continues : Parser σ β} {owed : Nat} {a : α}
  {as : List α} {b : β} {c c₁ c₂ c₃ d : Cursor} {j j₁ j₂ k : σ} {r : Reply σ (List α)}

/-- The end of a line is taken up to the next one. -/
theorem lineEnd_eq_ok_iff : lineEnd c j = .ok () d k ↔ c.NextLine d ∧ k = j := by
  constructor
  · intro h
    obtain ⟨hends, hok⟩ | ⟨-, i, e, hmiss⟩ := lineEnd_spec c j
    · cases hok.symm.trans h
      exact ⟨Cursor.nextLine_of_endsLine hends, rfl⟩
    · cases hmiss.symm.trans h
  · rintro ⟨h, rfl⟩
    obtain ⟨hends, rfl⟩ := h.endsLine
    exact (lineEnd_spec c k).elim And.right fun hnot => absurd hends hnot.1

/-- The parser takes something whenever it answers. -/
def Consumes (item : Parser σ α) : Prop :=
  ∀ c j a c' j', item c j = .ok a c' j' → c.Ahead c' ∧ c.index < c'.index

/-! ## The items of a block -/

/-- An item, and the next line, which continues the block. -/
inductive Followed (item : Parser σ α) (continues : Parser σ β) :
    Cursor → σ → α → Cursor → σ → Prop
  /-- The next item is at the first character of the line that is not blank. -/
  | intro {a : α} {b : β} {c c₁ c₂ c₃ : Cursor} {j j₁ j₂ : σ} (hitem : item c j = .ok a c₁ j₁)
      (hline : c₁.NextLine c₂) (hmore : c₂.rest ≠ [])
      (hnext : continues (c₂.skipWhile Text.isBlank) j₁ = .ok b c₃ j₂) :
      Followed item continues c j a (c₂.skipWhile Text.isBlank) j₂

/-- Items that are all followed by a line of the block. -/
inductive BlockLines (item : Parser σ α) (continues : Parser σ β) :
    Cursor → σ → List α → Cursor → σ → Prop
  /-- No items. -/
  | nil {c : Cursor} {j : σ} : BlockLines item continues c j [] c j
  /-- An item, and others from the next line on. -/
  | cons {a : α} {as : List α} {c c' d : Cursor} {j j' k : σ}
      (h : Followed item continues c j a c' j') (hrest : BlockLines item continues c' j' as d k) :
      BlockLines item continues c j (a :: as) d k

/-- What a block replies behind items that are followed by a line of it, where the next one is
    not. -/
inductive BlockEnd (item : Parser σ α) (continues : Parser σ β) (owed : Nat) (as : List α)
    (d : Cursor) (k : σ) : Reply σ (List α) → Prop
  /-- There is no such item. -/
  | missed {i : Nat} {e : List String} {k' : σ} (hitem : item d k = .miss i e k') :
      BlockEnd item continues owed as d k (.miss i e k')
  /-- The item fails for good. -/
  | failed {i : Nat} {x : Reason} {k' : σ} (hitem : item d k = .fatal i x k') :
      BlockEnd item continues owed as d k (.fatal i x k')
  /-- Something else is on its line. -/
  | cut {a : α} {c₁ : Cursor} {i : Nat} {e : List String} {k₁ k₂ : σ}
      (hitem : item d k = .ok a c₁ k₁) (hline : lineEnd c₁ k₁ = .miss i e k₂) :
      BlockEnd item continues owed as d k (.miss i e k₂)
  /-- No line is ahead. The item is the last one, whatever is owed. -/
  | ended {a : α} {c₁ c₂ : Cursor} {k₁ : σ} (hitem : item d k = .ok a c₁ k₁)
      (hline : c₁.NextLine c₂) (hend : c₂.rest = []) :
      BlockEnd item continues owed as d k (.ok (as ++ [a]) c₂ k₁)
  /-- The next line does not belong to the block, and is left as it is. -/
  | enough {a : α} {c₁ c₂ : Cursor} {k₁ : σ} (hitem : item d k = .ok a c₁ k₁)
      (hline : c₁.NextLine c₂) (hmore : c₂.rest ≠ [])
      (hnext : Misses continues (c₂.skipWhile Text.isBlank) k₁) (hcount : owed ≤ as.length + 1) :
      BlockEnd item continues owed as d k (.ok (as ++ [a]) c₂ k₁)
  /-- It does not belong to the block, but more items are owed. -/
  | owing {a : α} {c₁ c₂ : Cursor} {i : Nat} {e : List String} {k₁ k₂ : σ}
      (hitem : item d k = .ok a c₁ k₁) (hline : c₁.NextLine c₂) (hmore : c₂.rest ≠ [])
      (hnext : continues (c₂.skipWhile Text.isBlank) k₁ = .miss i e k₂)
      (hcount : as.length + 1 < owed) :
      BlockEnd item continues owed as d k
        (.miss i [Failure.owing (owed - (as.length + 1)) e] k₁)
  /-- What tells whether it belongs to the block fails for good. -/
  | broken {a : α} {c₁ c₂ : Cursor} {i : Nat} {x : Reason} {k₁ k₂ : σ}
      (hitem : item d k = .ok a c₁ k₁) (hline : c₁.NextLine c₂) (hmore : c₂.rest ≠ [])
      (hnext : continues (c₂.skipWhile Text.isBlank) k₁ = .fatal i x k₂) :
      BlockEnd item continues owed as d k (.fatal i x k₂)

/-- The next item is on a later line. -/
theorem Followed.laterLine (h : Followed item continues c j a d k) (hitem : Consumes item) :
    c.LaterLine d := by
  obtain ⟨hok, hline, hmore, -⟩ := h
  obtain ⟨hahead, hless⟩ := hitem _ _ _ _ _ hok
  exact hline.laterLine hahead hless hmore

/-- Behind items that take something there is a later line. -/
theorem BlockLines.laterLine (h : BlockLines item continues c j as d k) (hitem : Consumes item)
    (hne : as ≠ []) : c.LaterLine d := by
  induction h with
  | nil => exact absurd rfl hne
  | @cons a as c c' d j j' k h hrest ih =>
    have hlater := h.laterLine hitem
    cases hrest with
    | nil => exact hlater
    | cons => exact .of_ahead hlater.ahead (ih (List.cons_ne_nil _ _))

/-- There is less ahead of the next item. -/
theorem Followed.remaining_lt (h : Followed item continues c j a d k) (hitem : Consumes item) :
    d.remaining < c.remaining := by
  obtain ⟨w, x, b, hrest, -⟩ := (h.laterLine hitem).between
  rw [c.remaining_eq, hrest, byteSize_append, byteSize, byteSize_append, ← d.remaining_eq]
  have := x.utf8Size_pos
  omega

/-- The items come to an end. -/
theorem exists_blockLines (hitem : Consumes item) (continues : Parser σ β) (c : Cursor) (j : σ) :
    ∃ as d k, BlockLines item continues c j as d k ∧
      ∀ a c' j', ¬Followed item continues d k a c' j' := by
  induction hn : c.remaining using Nat.strongRecOn generalizing c j with
  | ind n ih =>
    subst hn
    -- There is another line of the block, or this is where they end.
    by_cases hnext : ∃ a c' j', Followed item continues c j a c' j'
    · obtain ⟨a, c', j', h⟩ := hnext
      obtain ⟨as, d, k, hrest, hends⟩ := ih _ (h.remaining_lt hitem) c' j' rfl
      exact ⟨a :: as, d, k, .cons h hrest, hends⟩
    · exact ⟨[], c, j, .nil, fun a c' j' h => hnext ⟨a, c', j', h⟩⟩

/-- Where the next item is not followed by a line of the block, there is a reply. -/
theorem exists_blockEnd (hends : ∀ a c' j', ¬Followed item continues d k a c' j') (owed : Nat)
    (as : List α) : ∃ r, BlockEnd item continues owed as d k r := by
  cases hok : item d k with
  | miss i e k' => exact ⟨_, .missed hok⟩
  | fatal i x k' => exact ⟨_, .failed hok⟩
  | ok a c₁ k₁ =>
    cases hend : lineEnd c₁ k₁ with
    | miss i e k₂ => exact ⟨_, .cut hok hend⟩
    | fatal i x k₂ => obtain ⟨-, h⟩ | ⟨-, _, _, h⟩ := lineEnd_spec c₁ k₁ <;> cases h.symm.trans hend
    | ok u c₂ k₂ =>
      obtain ⟨hline, -⟩ := lineEnd_eq_ok_iff.1 hend
      by_cases hmore : c₂.rest = []
      · exact ⟨_, .ended hok hline hmore⟩
      cases hnext : continues (c₂.skipWhile Text.isBlank) k₁ with
      | ok b c₃ k₃ => exact absurd (.intro hok hline hmore hnext) (hends _ _ _)
      | fatal i x k₃ => exact ⟨_, .broken hok hline hmore hnext⟩
      | miss i e k₃ =>
        rcases Nat.lt_or_ge (as.length + 1) owed with hcount | hcount
        · exact ⟨_, .owing hok hline hmore hnext hcount⟩
        · exact ⟨_, .enough hok hline hmore ⟨i, e, k₃, hnext⟩ hcount⟩

/-! ## The reply -/

/-- A line of a block is an item and the end of its line. -/
theorem line_eq (item : Parser σ α) (c : Cursor) (j : σ) : (item <* lineEnd) c j =
    (item c j).bind fun a c' j' => (lineEnd c' j').map fun _ => a := rfl

/-- An item ends its line before the next one. -/
theorem line_of_nextLine (hitem : item c j = .ok a c₁ j₁) (hline : c₁.NextLine c₂) :
    (item <* lineEnd) c j = .ok a c₂ j₁ := by
  have hend : lineEnd c₁ j₁ = .ok () c₂ j₁ := lineEnd_eq_ok_iff.2 ⟨hline, rfl⟩
  rw [line_eq, hitem, Reply.bind, hend]
  rfl

/-- A block goes on from the next line, and owes an item less. -/
theorem Followed.block_eq (h : Followed item continues c j a d k) (hitem : Consumes item)
    (owed : Nat) :
    block item continues owed c j = (block item continues (owed - 1) d k).map (a :: ·) := by
  have hless := h.remaining_lt hitem
  obtain ⟨hok, hline, hmore, hnext⟩ := h
  exact block_next owed (line_of_nextLine hok hline) (Cursor.not_atEnd hmore) hnext hless

/-- A block goes on behind its items. -/
theorem BlockLines.block_eq (h : BlockLines item continues c j as d k) (hitem : Consumes item)
    (owed : Nat) : block item continues owed c j =
      (block item continues (owed - as.length) d k).map (as ++ ·) := by
  induction h generalizing owed with
  | nil =>
    rw [List.length_nil, Nat.sub_zero]
    cases block item continues owed _ _ <;> rfl
  | @cons a as c c' d j j' k h _ ih =>
    rw [h.block_eq hitem, ih, List.length_cons, Nat.sub_sub, Nat.add_comm 1]
    cases block item continues (owed - (as.length + 1)) d k <;> rfl

/-- The reply of a block is the one at its end. -/
theorem BlockEnd.block_eq (h : BlockEnd item continues owed as d k r) :
    (block item continues (owed - as.length) d k).map (as ++ ·) = r := by
  cases h with
  | missed hok =>
    rw [block, line_eq, hok]
    rfl
  | failed hok =>
    rw [block, line_eq, hok]
    rfl
  | cut hok hline =>
    rw [block, line_eq, hok, Reply.bind, hline]
    rfl
  | ended hok hline hend =>
    rw [block, line_of_nextLine hok hline]
    simp [Cursor.atEnd, hend, Reply.map]
  | enough hok hline hmore hnext hcount =>
    obtain ⟨i, e, k₂, hnext⟩ := hnext
    rw [block_miss _ (line_of_nextLine hok hline) (Cursor.not_atEnd hmore) hnext,
      if_pos (by omega)]
    rfl
  | owing hok hline hmore hnext hcount =>
    rw [block_miss _ (line_of_nextLine hok hline) (Cursor.not_atEnd hmore) hnext,
      if_neg (by omega), Nat.sub_sub]
    rfl
  | broken hok hline hmore hnext =>
    rw [block_fatal _ (line_of_nextLine hok hline) (Cursor.not_atEnd hmore) hnext]
    rfl

/-- The items of a block and its end. -/
theorem exists_block (hitem : Consumes item) (continues : Parser σ β) (owed : Nat) (c : Cursor)
    (j : σ) : ∃ as d k, BlockLines item continues c j as d k ∧
      BlockEnd item continues owed as d k (block item continues owed c j) := by
  obtain ⟨as, d, k, hlines, hends⟩ := exists_blockLines hitem continues c j
  obtain ⟨r, hend⟩ := exists_blockEnd hends owed as
  refine ⟨as, d, k, hlines, ?_⟩
  rwa [hlines.block_eq hitem, hend.block_eq]

/-- A block answers an item at least, and it ends with the source, or else what is owed was found
    and the next line does not belong to it. -/
theorem of_block_eq_ok (hitem : Consumes item) {c' : Cursor} {j' : σ}
    (h : block item continues owed c j = .ok as c' j') :
    as ≠ [] ∧ (c'.rest = [] ∨ owed ≤ as.length ∧ c'.atLineStart ∧
      Misses continues (c'.skipWhile Text.isBlank) j') := by
  obtain ⟨bs, d, k, -, hend⟩ := exists_block hitem continues owed c j
  rw [h] at hend
  cases hend with
  | ended hok hline hnil => exact ⟨by simp, .inl hnil⟩
  | enough hok hline hmore hnext hcount =>
    refine ⟨by simp, .inr ⟨by simpa using hcount, ?_, hnext⟩⟩
    exact (hline.starts.resolve_left hmore).1

/-- What a block replies, if its items take something. It answers items at the first characters
    of lines that continue it, each on a later line than the one before; so there is an item at
    least, the first one where the block starts. What is found where the last one is, or behind it,
    is its end: where an item or the rest of its line fails the block fails alike, and a line that
    does not continue the block is left as it is, if what is owed was found. Only where the source
    ends it does not matter what is owed. -/
theorem block_reply (hitem : Consumes item) (continues : Parser σ β) (owed : Nat) (c : Cursor)
    (j : σ) :
    (∀ r, block item continues owed c j = r ↔ ∃ as d k,
      BlockLines item continues c j as d k ∧ BlockEnd item continues owed as d k r) ∧
    (∀ as d k, BlockLines item continues c j as d k → as ≠ [] → c.LaterLine d) ∧
    ∀ as c' j', block item continues owed c j = .ok as c' j' →
      as ≠ [] ∧ (c'.rest = [] ∨ owed ≤ as.length ∧ c'.atLineStart ∧
        Misses continues (c'.skipWhile Text.isBlank) j') := by
  refine ⟨fun r => ⟨?_, ?_⟩, fun as d k h => h.laterLine hitem,
    fun as c' j' h => of_block_eq_ok hitem h⟩
  · rintro rfl
    exact exists_block hitem continues owed c j
  · rintro ⟨as, d, k, hlines, hend⟩
    rw [hlines.block_eq hitem, hend.block_eq]

/-- A character takes something. -/
theorem consumes_char (x : Char) : Consumes (char x : Parser σ Char) := by
  intro c j y c' j' h
  obtain ⟨xs, hrest, rfl⟩ := char_eq_ok h
  have hless := Cursor.remaining_skip_lt Nat.one_pos (by rw [hrest]; exact List.cons_ne_nil x xs)
  exact ⟨Cursor.ahead_skip 1 c, (Cursor.ahead_skip 1 c).index_lt_iff.2 hless⟩

/-- Two letters, with a blank line between them, are not enough where three are owed: the line
    behind them does not start with one. -/
theorem block_reply_letters : ∃ c as d,
    c = Cursor.ofChars ['a', '\n', '\n', ' ', 'a', '\n', 'b'] 4 ∧
      BlockLines (char 'a' : Parser Unit Char) (char 'a' : Parser Unit Char) c () as d () ∧
      as ≠ [] ∧ c.LaterLine d ∧
      block (char 'a' : Parser Unit Char) (char 'a' : Parser Unit Char) 3 c () =
        .miss 6 ["at least 1 more of a"] () := by
  let c := Cursor.ofChars ['a', '\n', '\n', ' ', 'a', '\n', 'b'] 4
  let d := ((c.skip 1).skip 2).skipWhile Text.isBlank
  have hbreaks : ∀ x ∈ ['\n', '\n'], Text.isLayout x :=
    List.forall_mem_cons.2 ⟨rfl, List.forall_mem_singleton.2 rfl⟩
  have hfirst : (c.skip 1).NextLine ((c.skip 1).skip 2) :=
    ⟨⟨['\n', '\n'], rfl, rfl, hbreaks⟩, .inr ⟨rfl, 'a', rfl, rfl⟩⟩
  have hlines : BlockLines (char 'a' : Parser Unit Char) (char 'a' : Parser Unit Char) c () ['a']
      d () := .cons (.intro rfl hfirst (List.cons_ne_nil _ _) rfl) .nil
  have hitem : (char 'a' : Parser Unit Char) d () = .ok 'a' (d.skip 1) () := rfl
  have hlast : (d.skip 1).NextLine ((d.skip 1).skip 1) :=
    ⟨⟨['\n'], rfl, rfl, List.forall_mem_singleton.2 rfl⟩, .inr ⟨rfl, 'b', rfl, rfl⟩⟩
  have hnext : (char 'a' : Parser Unit Char) (((d.skip 1).skip 1).skipWhile Text.isBlank) () =
      .miss 6 ["a"] () := rfl
  have hcount : ['a'].length + 1 < 3 := by decide
  obtain ⟨hreply, hlater, -⟩ := block_reply (consumes_char 'a') (char 'a' : Parser Unit Char) 3 c ()
  refine ⟨c, ['a'], d, rfl, hlines, List.cons_ne_nil _ _,
    hlater _ _ _ hlines (List.cons_ne_nil _ _), (hreply _).2 ⟨['a'], d, (), hlines, ?_⟩⟩
  exact .owing hitem hlast (List.cons_ne_nil _ _) hnext hcount

/-- One letter is enough where the source ends, though two are owed. -/
theorem block_short : Consumes (char 'a' : Parser Unit Char) ∧ ∃ as c',
    block (char 'a' : Parser Unit Char) (char 'b' : Parser Unit Char) 2 (.ofChars ['a'] 4) () =
      .ok as c' () ∧ as.length < 2 := by
  let c : Cursor := .ofChars ['a'] 4
  have hline : (c.skip 1).NextLine (c.skip 1) :=
    ⟨⟨[], rfl, (Cursor.skip_zero _).symm, List.forall_mem_nil _⟩, .inl rfl⟩
  have hlines : BlockLines (char 'a' : Parser Unit Char) (char 'b' : Parser Unit Char) c () [] c ()
    := .nil
  refine ⟨consumes_char 'a', ['a'], c.skip 1, ?_, by decide⟩
  rw [hlines.block_eq (consumes_char 'a')]
  exact BlockEnd.block_eq (.ended rfl hline rfl)

end Parser

end Dialogue
