import Dialogue.Proofs.Parser.Agree
import Dialogue.Proofs.Parser.Items
import Dialogue.Proofs.Parser.Misses

/-!
# Searches

A search runs a parser until another one applies, its *stop*, which is only looked at. It is looked
at before each item, so the items lead to the first place where the stop does not miss
(`Parser.Until`), unless there is no item to go on with. Each of them takes something, so there are
not more of them than bytes ahead (`Parser.Until.length_add_remaining_le`).

What is missed where a search cannot go on is the stop or the item: the stop at the end of the
source, and where the item takes nothing (`Parser.manyTill_reply`).
-/

namespace Dialogue

namespace Parser

variable {σ α β : Type} {p : Parser σ α} {stop : Parser σ β} {c c' d : Cursor} {j j' k l : σ}
  {as : List α} {i : Nat} {e : List String} {x : Reason}

/-- Items that are read one after the other, each at a place where the stop misses. -/
inductive Until (p : Parser σ α) (stop : Parser σ β) : Cursor → σ → List α → Cursor → σ → Prop
  /-- No items. -/
  | nil {c : Cursor} {j : σ} : Until p stop c j [] c j
  /-- An item, and others where it ends. -/
  | cons {a : α} {as : List α} {c c' d : Cursor} {j j' k : σ} (hstop : Misses stop c j)
      (h : p c j = .ok a c' j') (hless : c'.remaining < c.remaining)
      (hrest : Until p stop c' j' as d k) : Until p stop c j (a :: as) d k

/-- The parser answers here, and takes nothing. -/
def Idle (p : Parser σ α) (c : Cursor) (j : σ) : Prop :=
  ∃ a c' j', p c j = .ok a c' j' ∧ ¬c'.remaining < c.remaining

/-- The items are successive runs, wherever the stop applies. -/
theorem Until.items (h : p.Until stop c j as d k) : p.Items c j as d k := by
  induction h with
  | nil => exact .nil
  | cons _ hp hless _ ih => exact .cons hp hless ih

/-- Each item takes a byte at least. -/
theorem Until.length_add_remaining_le (h : p.Until stop c j as d k) :
    as.length + d.remaining ≤ c.remaining := by
  induction h with
  | nil => exact Nat.le_of_eq (Nat.zero_add _)
  | cons _ _ hless _ ih =>
    rw [List.length_cons]
    omega

/-- A search comes to a place where it does not go on. -/
theorem exists_until (p : Parser σ α) (stop : Parser σ β) (c : Cursor) (j : σ) :
    ∃ as d k, p.Until stop c j as d k ∧
      (Misses stop d k → ∀ a c' j', p d k = .ok a c' j' → ¬c'.remaining < d.remaining) := by
  induction hm : c.remaining using Nat.strongRecOn generalizing c j with
  | ind m ih =>
    subst hm
    by_cases hnext : Misses stop c j ∧ ∃ a c' j', p c j = .ok a c' j' ∧ c'.remaining < c.remaining
    · obtain ⟨hstop, a, c', j', h, hless⟩ := hnext
      obtain ⟨as, d, k, hrest, hends⟩ := ih c'.remaining hless c' j' rfl
      exact ⟨a :: as, d, k, .cons hstop h hless hrest, hends⟩
    · exact ⟨[], c, j, .nil, fun hstop a c' j' h hless => hnext ⟨hstop, a, c', j', h, hless⟩⟩

/-! ## The reply where the items end -/

/-- A search goes on behind items. -/
theorem Until.manyTill_eq (h : p.Until stop c j as d k) :
    p.manyTill stop c j = (p.manyTill stop d k).map (as ++ ·) := by
  induction h with
  | nil => cases p.manyTill stop _ _ <;> rfl
  | @cons a as _ _ d _ _ k hstop hp hless _ ih =>
    obtain ⟨i, e, l, hstop⟩ := hstop
    rw [manyTill_next hstop hp hless, ih]
    cases p.manyTill stop d k <;> rfl

/-- The search is over where the stop applies. -/
theorem Until.of_stop {b : β} (h : p.Until stop c j as d k) (hs : stop d k = .ok b c' l) :
    p.manyTill stop c j = .ok as d k := by
  rw [h.manyTill_eq, manyTill, hs]
  exact congrArg (Reply.ok · d k) (List.append_nil as)

/-- A stop that fails for good ends the search with its failure. -/
theorem Until.of_stop_fatal (h : p.Until stop c j as d k) (hs : stop d k = .fatal i x l) :
    p.manyTill stop c j = .fatal i x l := by
  rw [h.manyTill_eq, manyTill, hs]
  rfl

/-- Where an item takes nothing, it is the stop that was expected. -/
theorem Until.of_idle (h : p.Until stop c j as d k) (hs : stop d k = .miss i e l)
    (hp : p.Idle d k) : p.manyTill stop c j = .miss i e k := by
  obtain ⟨a, c', j', hp, hidle⟩ := hp
  rw [h.manyTill_eq, manyTill, hs, hp]
  dsimp only
  rw [dif_neg hidle]
  rfl

/-- At the end of the source the stop was expected as well. -/
theorem Until.of_end (h : p.Until stop c j as d k) (hs : stop d k = .miss i e l)
    (hp : Misses p d k) (hend : d.atEnd) : p.manyTill stop c j = .miss i e k := by
  obtain ⟨_, _, _, hp⟩ := hp
  rw [h.manyTill_eq, manyTill, hs, hp]
  dsimp only
  rw [if_pos hend]
  rfl

/-- Anywhere else an item was expected. -/
theorem Until.of_miss (h : p.Until stop c j as d k) (hs : Misses stop d k)
    (hp : p d k = .miss i e l) (hend : ¬d.atEnd) : p.manyTill stop c j = .miss i e k := by
  obtain ⟨_, _, _, hs⟩ := hs
  rw [h.manyTill_eq, manyTill, hs, hp]
  dsimp only
  rw [if_neg hend]
  rfl

/-- An item that fails for good where the stop misses ends the search with its failure. -/
theorem Until.of_fatal (h : p.Until stop c j as d k) (hs : Misses stop d k)
    (hp : p d k = .fatal i x l) : p.manyTill stop c j = .fatal i x l := by
  obtain ⟨_, _, _, hs⟩ := hs
  rw [h.manyTill_eq, manyTill, hs, hp]
  rfl

/-- The reply of a search, from what is found where it does not go on. -/
theorem manyTill_cases (p : Parser σ α) (stop : Parser σ β) (c : Cursor) (j : σ) :
    ∃ as d k, p.Until stop c j as d k ∧
      ((∃ b c' l, stop d k = .ok b c' l ∧ p.manyTill stop c j = .ok as d k) ∨
        (∃ i e l, stop d k = .miss i e l ∧ (p.Idle d k ∨ d.atEnd ∧ Misses p d k) ∧
          p.manyTill stop c j = .miss i e k) ∨
        (∃ i e l, Misses stop d k ∧ ¬d.atEnd ∧ p d k = .miss i e l ∧
          p.manyTill stop c j = .miss i e k) ∨
        ∃ i x l, (stop d k = .fatal i x l ∨ Misses stop d k ∧ p d k = .fatal i x l) ∧
          p.manyTill stop c j = .fatal i x l) := by
  obtain ⟨as, d, k, h, hends⟩ := exists_until p stop c j
  refine ⟨as, d, k, h, ?_⟩
  cases hs : stop d k with
  | ok b c' l => exact .inl ⟨b, c', l, rfl, h.of_stop hs⟩
  | fatal i x l => exact .inr (.inr (.inr ⟨i, x, l, .inl rfl, h.of_stop_fatal hs⟩))
  | miss i e l =>
    have hmiss : Misses stop d k := ⟨i, e, l, hs⟩
    cases hp : p d k with
    | ok a c' j' =>
      have hidle : p.Idle d k := ⟨a, c', j', hp, hends hmiss a c' j' hp⟩
      exact .inr (.inl ⟨i, e, l, rfl, .inl hidle, h.of_idle hs hidle⟩)
    | fatal i' x l' =>
      exact .inr (.inr (.inr ⟨i', x, l', .inr ⟨hmiss, rfl⟩, h.of_fatal hmiss hp⟩))
    | miss i' e' l' =>
      have hp' : Misses p d k := ⟨i', e', l', hp⟩
      by_cases hend : d.atEnd
      · exact .inr (.inl ⟨i, e, l, rfl, .inr ⟨hend, hp'⟩, h.of_end hs hp' hend⟩)
      · exact .inr (.inr (.inl ⟨i', e', l', hmiss, hend, rfl, h.of_miss hmiss hp hend⟩))

/-- A search answers the items before the first place where its stop answers. -/
theorem manyTill_eq_ok_iff : p.manyTill stop c j = .ok as c' j' ↔
    p.Until stop c j as c' j' ∧ ∃ b d k, stop c' j' = .ok b d k := by
  constructor
  · intro hr
    obtain ⟨as', d, k, h, ⟨b, d', l, hs, hreply⟩ | ⟨_, _, _, _, _, hreply⟩ |
      ⟨_, _, _, _, _, _, hreply⟩ | ⟨_, _, _, _, hreply⟩⟩ := manyTill_cases p stop c j
    -- Three of the replies are no answers.
    all_goals cases hreply.symm.trans hr
    exact ⟨h, b, d', l, hs⟩
  · rintro ⟨h, b, d, k, hs⟩
    exact h.of_stop hs

/-- A search misses with its stop where it cannot go on, or else with its item. -/
theorem manyTill_eq_miss_iff : p.manyTill stop c j = .miss i e j' ↔
    ∃ as d l, p.Until stop c j as d j' ∧
      (stop d j' = .miss i e l ∧ (p.Idle d j' ∨ d.atEnd ∧ Misses p d j') ∨
        Misses stop d j' ∧ ¬d.atEnd ∧ p d j' = .miss i e l) := by
  constructor
  · intro hr
    obtain ⟨as, d, k, h, ⟨_, _, _, _, hreply⟩ | ⟨i', e', l, hs, hp, hreply⟩ |
      ⟨i', e', l, hs, hend, hp, hreply⟩ | ⟨_, _, _, _, hreply⟩⟩ := manyTill_cases p stop c j
    all_goals cases hreply.symm.trans hr
    · exact ⟨as, d, l, h, .inl ⟨hs, hp⟩⟩
    · exact ⟨as, d, l, h, .inr ⟨hs, hend, hp⟩⟩
  · rintro ⟨as, d, l, h, ⟨hs, hidle | ⟨hend, hp⟩⟩ | ⟨hs, hend, hp⟩⟩
    · exact h.of_idle hs hidle
    · exact h.of_end hs hp hend
    · exact h.of_miss hs hp hend

/-- A search fails for good with its stop or its item. -/
theorem manyTill_eq_fatal_iff : p.manyTill stop c j = .fatal i x j' ↔
    ∃ as d k, p.Until stop c j as d k ∧
      (stop d k = .fatal i x j' ∨ Misses stop d k ∧ p d k = .fatal i x j') := by
  constructor
  · intro hr
    obtain ⟨as, d, k, h, ⟨_, _, _, _, hreply⟩ | ⟨_, _, _, _, _, hreply⟩ |
      ⟨_, _, _, _, _, _, hreply⟩ | ⟨i', x', l, hfatal, hreply⟩⟩ := manyTill_cases p stop c j
    all_goals cases hreply.symm.trans hr
    exact ⟨as, d, k, h, hfatal⟩
  · rintro ⟨as, d, k, h, hs | ⟨hs, hp⟩⟩
    · exact h.of_stop_fatal hs
    · exact h.of_fatal hs hp

/-- A search comes to an end: it takes not more items than bytes are ahead, and is without end only
    where one of the two parsers is. It answers the items before the first place where the stop
    applies, of which nothing is taken. It misses where neither the stop nor an item is to be had,
    and then what was expected is the stop, at the end of the source and where the item takes
    nothing, or else the item. It fails for good where one of the two does. -/
theorem manyTill_reply (p : Parser σ α) (stop : Parser σ β) (c : Cursor) (j : σ) :
    (∀ as d k, p.Until stop c j as d k → as.length + d.remaining ≤ c.remaining) ∧
    ((p.manyTill stop c j).Endless ↔ ∃ as d k, p.Until stop c j as d k ∧
      ((stop d k).Endless ∨ Misses stop d k ∧ (p d k).Endless)) ∧
    (∀ as c' j', p.manyTill stop c j = .ok as c' j' ↔
      p.Until stop c j as c' j' ∧ ∃ b d k, stop c' j' = .ok b d k) ∧
    (∀ i e j', p.manyTill stop c j = .miss i e j' ↔
      ∃ as d l, p.Until stop c j as d j' ∧
        (stop d j' = .miss i e l ∧ (p.Idle d j' ∨ d.atEnd ∧ Misses p d j') ∨
          Misses stop d j' ∧ ¬d.atEnd ∧ p d j' = .miss i e l)) ∧
    ∀ i x j', p.manyTill stop c j = .fatal i x j' ↔
      ∃ as d k, p.Until stop c j as d k ∧
        (stop d k = .fatal i x j' ∨ Misses stop d k ∧ p d k = .fatal i x j') := by
  refine ⟨fun _ _ _ h => h.length_add_remaining_le, ?_, fun _ _ _ => manyTill_eq_ok_iff,
    fun _ _ _ => manyTill_eq_miss_iff, fun _ _ _ => manyTill_eq_fatal_iff⟩
  constructor
  · rintro ⟨i, j', hr⟩
    obtain ⟨as, d, k, h, hs | ⟨hs, hp⟩⟩ := manyTill_eq_fatal_iff.1 hr
    · exact ⟨as, d, k, h, .inl ⟨i, j', hs⟩⟩
    · exact ⟨as, d, k, h, .inr ⟨hs, i, j', hp⟩⟩
  · rintro ⟨as, d, k, h, ⟨i, l, hs⟩ | ⟨hs, i, l, hp⟩⟩
    · exact ⟨i, l, h.of_stop_fatal hs⟩
    · exact ⟨i, l, h.of_fatal hs hp⟩

/-- Where the source ends too early, the letter is missed as well, but the stop was expected. -/
theorem manyTill_reply_letters : ∃ as d,
    (char 'a' : Parser Unit Char).Until (char ';' : Parser Unit Char) (.ofChars "aa".toList 4) ()
        as d () ∧ as.length + d.remaining ≤ 2 ∧ Misses (char 'a' : Parser Unit Char) d () ∧
      (char 'a' : Parser Unit Char).manyTill (char ';' : Parser Unit Char) (.ofChars "aa".toList 4)
        () = .miss 2 [";"] () := by
  let d : Cursor := ((Cursor.ofChars "aa".toList 4).skip 1).skip 1
  have h : (char 'a' : Parser Unit Char).Until (char ';' : Parser Unit Char)
      (.ofChars "aa".toList 4) () ['a', 'a'] d () :=
    .cons ⟨0, [";"], (), rfl⟩ rfl (by decide) (.cons ⟨1, [";"], (), rfl⟩ rfl (by decide) .nil)
  have hp : Misses (char 'a' : Parser Unit Char) d () := ⟨2, ["a"], (), rfl⟩
  obtain ⟨hlength, -, -, hmiss, -⟩ := manyTill_reply (char 'a' : Parser Unit Char)
    (char ';' : Parser Unit Char) (.ofChars "aa".toList 4) ()
  refine ⟨['a', 'a'], d, h, hlength _ _ _ h, hp, (hmiss _ _ _).2 ?_⟩
  exact ⟨['a', 'a'], d, (), h, .inl ⟨rfl, .inr ⟨rfl, hp⟩⟩⟩

end Parser

end Dialogue
