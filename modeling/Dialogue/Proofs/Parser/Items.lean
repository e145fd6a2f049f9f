import Dialogue.Proofs.Cursor.Place
import Dialogue.Proofs.Parser.Run

/-!
# The items of a repetition

A repetition runs its parser again and again, each time where the last item ended, as long as the
items take something (`Parser.Items`). They come to an end (`Parser.exists_items`), and what the
parser replies there decides what the repetition replies.

A repetition that misses an item counts what it has, and misses as well if that is too little. It
does not count where an item takes nothing: that item is the last one, and is enough
(`Parser.many_reply`).
-/

namespace Dialogue

namespace Parser

variable {σ α : Type} {p : Parser σ α} {c c' d : Cursor} {j j' k : σ} {as : List α} {owed : Nat}

/-- Items that are read one after the other, each of which takes something. -/
inductive Items (p : Parser σ α) : Cursor → σ → List α → Cursor → σ → Prop
  /-- No items. -/
  | nil {c : Cursor} {j : σ} : Items p c j [] c j
  /-- An item, and others where it ends. -/
  | cons {a : α} {as : List α} {c c' d : Cursor} {j j' k : σ} (h : p c j = .ok a c' j')
      (hless : c'.remaining < c.remaining) (hrest : Items p c' j' as d k) :
      Items p c j (a :: as) d k

/-- Items come to an end, as each of them leaves less ahead. -/
theorem exists_items (p : Parser σ α) (c : Cursor) (j : σ) :
    ∃ as d k, p.Items c j as d k ∧
      ∀ a c' j', p d k = .ok a c' j' → ¬ c'.remaining < d.remaining := by
  induction hm : c.remaining using Nat.strongRecOn generalizing c j with
  | ind m ih =>
    subst hm
    -- There is another item, or this is where they end.
    by_cases hnext : ∃ a c' j', p c j = .ok a c' j' ∧ c'.remaining < c.remaining
    · obtain ⟨a, c', j', h, hless⟩ := hnext
      obtain ⟨as, d, k, hrest, hends⟩ := ih c'.remaining hless c' j' rfl
      exact ⟨a :: as, d, k, .cons h hless hrest, hends⟩
    · exact ⟨[], c, j, .nil, fun a c' j' h hless => hnext ⟨a, c', j', h, hless⟩⟩

/-! ## The reply where the items end -/

/-- A repetition goes on behind items, and owes as many less. -/
theorem many_append (h : p.Items c j as d k) (owed : Nat) :
    p.many owed c j = (p.many (owed - as.length) d k).map (as ++ ·) := by
  induction h generalizing owed with
  | nil =>
    rw [List.length_nil, Nat.sub_zero]
    cases p.many owed _ _ <;> rfl
  | @cons a as _ _ d _ _ k hp hless _ ih =>
    rw [many_next owed hp hless, ih, List.length_cons, Nat.sub_sub, Nat.add_comm 1]
    cases p.many (owed - (as.length + 1)) d k <;> rfl

/-- An item that takes nothing is the last one, whatever is owed. -/
theorem many_of_idle {a : α} (h : p.Items c j as d k) (hp : p d k = .ok a c' j')
    (hidle : ¬ c'.remaining < d.remaining) (owed : Nat) :
    p.many owed c j = .ok (as ++ [a]) c' j' := by
  rw [many_append h, many, hp]
  dsimp only
  rw [dif_neg hidle]
  rfl

section

variable {i : Nat} {e : List String}

/-- Where an item is missed, those before it may be enough. -/
theorem many_of_enough (h : p.Items c j as d k) (hp : p d k = .miss i e j')
    (hcount : owed ≤ as.length) : p.many owed c j = .ok as d k := by
  rw [many_append h, many, hp]
  dsimp only
  rw [if_pos (Nat.sub_eq_zero_of_le hcount)]
  exact congrArg (Reply.ok · d k) (List.append_nil as)

/-- Where an item is missed, others may be owed. -/
theorem many_of_owing (h : p.Items c j as d k) (hp : p d k = .miss i e j')
    (hcount : as.length < owed) :
    p.many owed c j = .miss i [Failure.owing (owed - as.length) e] k := by
  rw [many_append h, many, hp]
  dsimp only
  rw [if_neg (Nat.sub_ne_zero_of_lt hcount)]
  rfl

/-- A repetition fails for good with the item behind those that it has. -/
theorem many_of_fatal {x : Reason} (h : p.Items c j as d k) (hp : p d k = .fatal i x j')
    (owed : Nat) : p.many owed c j = .fatal i x j' := by
  rw [many_append h, many, hp]
  rfl

end

/-- The reply of a repetition, from that of its parser where the items end. -/
theorem many_cases (p : Parser σ α) (owed : Nat) (c : Cursor) (j : σ) :
    ∃ as d k, p.Items c j as d k ∧
      ((∃ a c' j', p d k = .ok a c' j' ∧ ¬ c'.remaining < d.remaining ∧
          p.many owed c j = .ok (as ++ [a]) c' j') ∨
        (∃ i e l, p d k = .miss i e l ∧ owed ≤ as.length ∧ p.many owed c j = .ok as d k) ∨
        (∃ i e l, p d k = .miss i e l ∧ as.length < owed ∧
          p.many owed c j = .miss i [Failure.owing (owed - as.length) e] k) ∨
        ∃ i x l, p d k = .fatal i x l ∧ p.many owed c j = .fatal i x l) := by
  obtain ⟨as, d, k, hitems, hends⟩ := exists_items p c j
  refine ⟨as, d, k, hitems, ?_⟩
  cases hp : p d k with
  | ok a c' j' =>
    have hidle := hends a c' j' hp
    exact .inl ⟨a, c', j', rfl, hidle, many_of_idle hitems hp hidle owed⟩
  | miss i e l =>
    rcases Nat.lt_or_ge as.length owed with hcount | hcount
    · exact .inr (.inr (.inl ⟨i, e, l, rfl, hcount, many_of_owing hitems hp hcount⟩))
    · exact .inr (.inl ⟨i, e, l, rfl, hcount, many_of_enough hitems hp hcount⟩)
  | fatal i x l => exact .inr (.inr (.inr ⟨i, x, l, rfl, many_of_fatal hitems hp owed⟩))

section

variable {i : Nat} {e : List String}

/-- Either the parser misses where the items end, and they are enough, or the last of them, and only
    the last one, takes nothing. Then it does not matter how many they are. -/
theorem many_eq_ok_iff : p.many owed c j = .ok as c' j' ↔
    (p.Items c j as c' j' ∧ (∃ i e k, p c' j' = .miss i e k) ∧ owed ≤ as.length) ∨
      ∃ bs a d k, as = bs ++ [a] ∧ p.Items c j bs d k ∧ p d k = .ok a c' j' ∧
        ¬ c'.remaining < d.remaining ∧ (d.Ahead c' → c'.index = d.index) := by
  constructor
  · intro h
    obtain ⟨bs, d, k, hitems, ⟨a, _, _, hp, hidle, hreply⟩ | ⟨i, e, l, hp, hcount, hreply⟩ |
      ⟨_, _, _, _, _, hreply⟩ | ⟨_, _, _, _, hreply⟩⟩ := many_cases p owed c j
    -- Two of the replies are no answers.
    all_goals cases hreply.symm.trans h
    · refine .inr ⟨bs, a, d, k, rfl, hitems, hp, hidle, fun hahead => ?_⟩
      exact Nat.le_antisymm (Nat.le_of_not_lt (mt hahead.index_lt_iff.1 hidle)) hahead.index_le
    · exact .inl ⟨hitems, ⟨i, e, l, hp⟩, hcount⟩
  · rintro (⟨hitems, ⟨i, e, l, hp⟩, hcount⟩ | ⟨bs, a, d, k, rfl, hitems, hp, hidle, -⟩)
    · exact many_of_enough hitems hp hcount
    · exact many_of_idle hitems hp hidle owed

/-- A repetition misses where an item does while some are owed. -/
theorem many_eq_miss_iff : p.many owed c j = .miss i e j' ↔
    ∃ as d e' k, p.Items c j as d j' ∧ as.length < owed ∧ p d j' = .miss i e' k ∧
      e = [Failure.owing (owed - as.length) e'] := by
  constructor
  · intro h
    obtain ⟨as, d, k, hitems, ⟨_, _, _, _, _, hreply⟩ | ⟨_, _, _, _, _, hreply⟩ |
      ⟨_, e', l, hp, hcount, hreply⟩ | ⟨_, _, _, _, hreply⟩⟩ := many_cases p owed c j
    all_goals cases hreply.symm.trans h
    exact ⟨as, d, e', l, hitems, hcount, hp, rfl⟩
  · rintro ⟨as, d, e', k, hitems, hcount, hp, rfl⟩
    exact many_of_owing hitems hp hcount

/-- A repetition fails for good where an item does. -/
theorem many_eq_fatal_iff {x : Reason} : p.many owed c j = .fatal i x j' ↔
    ∃ as d k, p.Items c j as d k ∧ p d k = .fatal i x j' := by
  constructor
  · intro h
    obtain ⟨as, d, k, hitems, ⟨_, _, _, _, _, hreply⟩ | ⟨_, _, _, _, _, hreply⟩ |
      ⟨_, _, _, _, _, hreply⟩ | ⟨_, _, _, hp, hreply⟩⟩ := many_cases p owed c j
    all_goals cases hreply.symm.trans h
    exact ⟨as, d, k, hitems, hp⟩
  · rintro ⟨as, d, k, hitems, hp⟩
    exact many_of_fatal hitems hp owed

end

/-- A repetition answers the items that it read, each where the one before it ended: either its
    parser misses where they end, and they are enough, or the last of them, and only the last one,
    takes nothing, and then it does not matter how many they are. It misses where the parser does if
    the items are not enough, and tells how many it still owes. It fails for good where the parser
    does. -/
theorem many_reply (p : Parser σ α) (owed : Nat) (c : Cursor) (j : σ) :
    (∀ as c' j', p.many owed c j = .ok as c' j' ↔
      (p.Items c j as c' j' ∧ (∃ i e k, p c' j' = .miss i e k) ∧ owed ≤ as.length) ∨
      ∃ bs a d k, as = bs ++ [a] ∧ p.Items c j bs d k ∧ p d k = .ok a c' j' ∧
        ¬ c'.remaining < d.remaining ∧ (d.Ahead c' → c'.index = d.index)) ∧
    (∀ i e j', p.many owed c j = .miss i e j' ↔
      ∃ as d e' k, p.Items c j as d j' ∧ as.length < owed ∧ p d j' = .miss i e' k ∧
        e = [Failure.owing (owed - as.length) e']) ∧
    ∀ i x j', p.many owed c j = .fatal i x j' ↔
      ∃ as d k, p.Items c j as d k ∧ p d k = .fatal i x j' :=
  ⟨fun _ _ _ => many_eq_ok_iff, fun _ _ _ => many_eq_miss_iff, fun _ _ _ => many_eq_fatal_iff⟩

/-- Two letters are not enough where three are owed: one is missed behind them. -/
theorem many_reply_letters : ∃ as d e k,
    (char 'a' : Parser Unit Char).Items (.ofChars "aab".toList 4) () as d () ∧
      as.length < 3 ∧ char 'a' d () = .miss 2 e k ∧
      ["at least 1 more of a"] = [Failure.owing (3 - as.length) e] := by
  have hitems : (char 'a' : Parser Unit Char).Items (.ofChars "aab".toList 4) () ['a', 'a']
      (((Cursor.ofChars "aab".toList 4).skip 1).skip 1) () :=
    .cons rfl (by decide) (.cons rfl (by decide) .nil)
  obtain ⟨-, hmiss, -⟩ := many_reply (char 'a' : Parser Unit Char) 3 (.ofChars "aab".toList 4) ()
  exact (hmiss 2 ["at least 1 more of a"] ()).1 (many_of_owing hitems rfl (by decide))

/-- An item that takes nothing is enough, though two are owed. -/
theorem many_short : ∃ as c', (pure 1 : Parser Unit Nat).many 2 (.ofChars [] 4) () = .ok as c' () ∧
    as.length < 2 :=
  ⟨[1], .ofChars [] 4, many_of_idle .nil rfl (Nat.lt_irrefl _) 2, by decide⟩

end Parser

end Dialogue
