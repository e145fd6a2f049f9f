import Dialogue.Proofs.Parser.Misses

/-!
# Triples

A *triple* says what a parser does to its journal. Started with a journal that satisfies
`P`, the parser either answers a value and leaves a journal that together satisfy `Q`, or
it does not answer. Nothing is asked of the journal of a miss or a fatal failure: who
gives up an alternative goes on with the journal from before it.

There is one rule for each combinator, so a triple for a rule of a grammar follows its
text. A check that takes nothing keeps every `P`, whatever it looks at. Repetitions have
an invariant: on the list of items so far (`Triple.block`) or on the accumulated value
(`Triple.chainLeft`).

Most tokens are *silent*: they leave the journal alone, and so does what is built from
silent parsers only.
-/

namespace Dialogue.Parser

variable {σ α β : Type}

/-- Started with a journal that satisfies `P`, `p` answers only what satisfies `Q`. -/
def Triple (P : σ → Prop) (p : Parser σ α) (Q : α → σ → Prop) : Prop :=
  ∀ ⦃c j a c' j'⦄, P j → p c j = .ok a c' j' → Q a j'

namespace Triple

variable {P : σ → Prop} {Q R : α → σ → Prop} {p : Parser σ α}

/-! ## Rules for every parser -/

/-- What is said of the answer may be weakened. -/
theorem mono (h : Triple P p Q) (hQ : ∀ a j, Q a j → R a j) : Triple P p R :=
  fun _ _ _ _ _ hP hp => hQ _ _ (h hP hp)

/-- What is asked of the journal may be strengthened. -/
theorem pre {P' : σ → Prop} (h : Triple P p Q) (hP : ∀ j, P' j → P j) : Triple P' p Q :=
  fun _ _ _ _ _ hP' hp => h (hP _ hP') hp

/-- A value answers with the journal as it is. -/
theorem pure {a : α} (h : ∀ j, P j → Q a j) : Triple P (Pure.pure a) Q := by
  rintro _ _ _ _ _ hP ⟨⟩
  exact h _ hP

/-- In turn, the second parser starts where the first one answers. -/
theorem bind {f : α → Parser σ β} {S : β → σ → Prop} (hp : Triple P p Q)
    (hf : ∀ a, Triple (Q a) (f a) S) : Triple P (p >>= f) S := by
  intro c j b c' j' hP h
  obtain ⟨a, c₁, j₁, hr, h⟩ := of_bind_eq_ok h
  exact hf a (hp hP hr) h

/-- A changed value satisfies what is said of it before the change. -/
theorem map {f : α → β} {S : β → σ → Prop} (hp : Triple P p fun a => S (f a)) :
    Triple P (f <$> p) S :=
  hp.bind fun _ => pure fun _ h => h

/-- Of two parsers in turn the first value is answered, with the journal of the second. -/
theorem seqLeft {q : Parser σ β} (hp : Triple P p Q) (hq : ∀ a, Triple (Q a) q fun _ => R a) :
    Triple P (p <* q) R :=
  hp.bind fun a => (hq a).bind fun _ => pure fun _ h => h

/-- Of two parsers in turn the second value is answered. -/
theorem seqRight {q : Parser σ β} {S : β → σ → Prop} (hp : Triple P p Q)
    (hq : ∀ a, Triple (Q a) q S) : Triple P (p *> q) S :=
  hp.bind hq

/-- Alternatives start with one journal, as a miss of the first is given up. -/
theorem orElse {q : Parser σ α} (hp : Triple P p Q) (hq : Triple P q Q) :
    Triple P (p <|> q) Q := by
  intro c j a c' j' hP h
  obtain h | ⟨-, h⟩ := of_orElse_eq_ok h
  · exact hp hP h
  · exact hq hP h

/-- What may be missing leaves the journal alone if it is. -/
theorem optional {S : Option α → σ → Prop} (hp : Triple P p fun a => S (some a))
    (hn : ∀ j, P j → S none j) : Triple P (Parser.optional p) S := by
  intro c j o c' j' hP h
  obtain ⟨a, rfl, hr⟩ | ⟨rfl, -, rfl, -⟩ := of_optional_eq_ok h
  · exact hp hP hr
  · exact hn _ hP

/-- Going on with the answer, or without one from before. -/
theorem optionalBind {f : Option α → Parser σ β} {S : β → σ → Prop} (hp : Triple P p Q)
    (hsome : ∀ a, Triple (Q a) (f (some a)) S) (hnone : Triple P (f none) S) :
    Triple P (Parser.optional p >>= f) S := by
  refine bind (Q := fun o j => o.elim (P j) (Q · j)) (optional hp fun _ h => h) fun o => ?_
  cases o with
  | some a => exact hsome a
  | none => exact hnone

/-- What is answered was accepted. -/
theorem filter {accepts : α → Bool} {what : String} (hp : Triple P p Q) :
    Triple P (Parser.filter accepts what p) fun a j => Q a j ∧ accepts a := by
  intro c j a c' j' hP h
  obtain ⟨hr, ha⟩ := of_filter_eq_ok h
  exact ⟨hp hP hr, ha⟩

/-- What is only looked at leaves no trace. -/
theorem lookAhead : Triple P (Parser.lookAhead p) fun _ => P := by
  intro c j _ c' j' hP h
  obtain ⟨-, rfl, -⟩ := of_lookAhead_eq_ok h
  exact hP

/-- What must not follow leaves the journal alone. -/
theorem notFollowedBy {what : String} :
    Triple P (Parser.notFollowedBy p what) fun _ => P := by
  intro c j _ c' j' hP h
  obtain ⟨-, rfl, -⟩ := of_notFollowedBy_eq_ok h
  exact hP

/-- What is only tried leaves the journal alone. -/
theorem wouldMatch : Triple P (Parser.wouldMatch p) fun _ => P := by
  intro c j _ c' j' hP h
  obtain ⟨-, rfl, -⟩ := of_wouldMatch_eq_ok h
  exact hP

/-- The reference does not show in the journal. -/
theorem atOwnIndent (hp : Triple P p Q) : Triple P (Parser.atOwnIndent p) Q := by
  intro c j a c' j' hP h
  obtain ⟨c₁, hr, -⟩ := of_atOwnIndent_eq_ok h
  exact hp hP hr

/-- A fatal failure is no answer. -/
theorem fatalAt {index : Nat} {reason : Reason} : Triple P (Parser.fatalAt index reason) Q :=
  fun _ _ _ _ _ _ h => nomatch h

/-- Of two parsers the triple has to hold of the one that is chosen. -/
theorem ite {c : Prop} [Decidable c] {q : Parser σ α} (hp : c → Triple P p Q)
    (hq : ¬c → Triple P q Q) : Triple P (if c then p else q) Q := by
  split
  · exact hp ‹c›
  · exact hq ‹¬c›

/-- Where a condition holds `stop` is run first, which never answers. -/
theorem stopIf {c : Prop} [Decidable c] {stop : Parser σ Unit} (hstop : ∀ R, Triple P stop R)
    (hp : Triple P p Q) : Triple P (if c then stop >>= fun _ => p else p) Q :=
  .ite (fun _ => (hstop fun _ => P).bind fun _ => hp) fun _ => hp

/-- A note changes the journal as it says. -/
theorem record {f : σ → σ} {Q : Unit → σ → Prop} (h : ∀ j, P j → Q () (f j)) :
    Triple P (Parser.record f) Q := by
  rintro _ _ _ _ _ hP ⟨⟩
  exact h _ hP

/-- To ask for the offset leaves the journal alone. -/
theorem position : Triple P Parser.position fun _ => P := by
  rintro _ _ _ _ _ hP ⟨⟩
  exact hP

/-- To ask for the journal answers it as it is. -/
theorem journal : Triple P Parser.journal fun a j => P j ∧ a = j := by
  rintro _ _ _ _ _ hP ⟨⟩
  exact ⟨hP, rfl⟩

/-! ## Repetitions -/

/-- The items of a block, of which there is at least one, keep an invariant on the list of
    all items so far. What lets the block go on may be anything that keeps it, too. -/
theorem block {item : Parser σ α} {continues : Parser σ β} {owed : Nat}
    {I : List α → σ → Prop}
    (hitem : ∀ as, Triple (I as) (item <* lineEnd) fun a => I (as ++ [a]))
    (hcont : ∀ as, Triple (I as) continues fun _ => I as) :
    Triple (I []) (Parser.block item continues owed) fun as j => as ≠ [] ∧ I as j := by
  suffices h : ∀ as c j bs c' j', I as j →
      Parser.block item continues owed c j = .ok bs c' j' → bs ≠ [] ∧ I (as ++ bs) j' from
    fun c j bs c' j' hI hb => h [] c j bs c' j' hI hb
  intro as c j
  -- The items after the first are a block of their own, of which fewer are owed.
  fun_induction Parser.block item continues owed c j generalizing as with
  | case1 => rintro _ _ _ _ ⟨⟩
  | case2 => rintro _ _ _ _ ⟨⟩
  | case3 owed c j a c₁ j₁ hfirst =>
    rintro _ _ _ hI ⟨⟩
    exact ⟨List.cons_ne_nil _ _, hitem as hI hfirst⟩
  | case4 owed c j a c₁ j₁ hfirst _ next _ _ j₂ hnext _ ih =>
    intro bs c' j' hI h
    obtain ⟨bs', hrest, rfl⟩ := Reply.of_map_eq_ok h
    have hI' := (ih (as ++ [a]) bs' _ _ (hcont _ (hitem as hI hfirst) hnext) hrest).2
    rw [List.append_assoc] at hI'
    exact ⟨List.cons_ne_nil _ _, hI'⟩
  | case5 => rintro _ _ _ _ ⟨⟩
  | case6 owed c j a c₁ j₁ hfirst =>
    rintro _ _ _ hI ⟨⟩
    exact ⟨List.cons_ne_nil _ _, hitem as hI hfirst⟩
  | case7 => rintro _ _ _ _ ⟨⟩
  | case8 => rintro _ _ _ _ ⟨⟩

/-- The accumulated value of a chain keeps an invariant. -/
theorem chainLeft {operand : Parser σ α} {operator : Parser σ (α → α → α)}
    (hfirst : Triple P operand Q)
    (hnext : ∀ a, Triple (Q a) (do let f ← operator; let b ← operand; Pure.pure (f a b)) Q) :
    Triple P (Parser.chainLeft operand operator) Q := by
  refine hfirst.bind fun acc c j a c' j' hQ h => ?_
  -- The rest of the chain goes on with the accumulated value.
  fun_induction Parser.chainRest operand operator acc c j with
  | case1 acc c j acc' c₁ j₁ hstep _ ih => exact ih (hnext acc hQ hstep) h
  | case2 => cases h
  | case3 =>
    cases h
    exact hQ
  | case4 => cases h

end Triple

/-! ## Silent parsers -/

/-- A parser that leaves the journal alone where it answers. -/
def Silent (p : Parser σ α) : Prop := ∀ P : σ → Prop, Triple P p fun _ => P

section

variable {p : Parser σ α} {q : Parser σ β}

/-- A silent parser keeps what holds of the journal. -/
theorem Silent.triple {P : σ → Prop} (h : Silent p) : Triple P p fun _ => P := h P

/-- A value is silent. -/
theorem Silent.pure (a : α) : Silent (Pure.pure a : Parser σ α) :=
  fun _ => .pure fun _ h => h

/-- Silent parsers in turn are silent. -/
theorem Silent.bind {f : α → Parser σ β} (hp : Silent p) (hf : ∀ a, Silent (f a)) :
    Silent (p >>= f) :=
  fun P => (hp P).bind fun a => hf a P

/-- A changed value is as silent. -/
theorem Silent.map {f : α → β} (hp : Silent p) : Silent (f <$> p) :=
  fun P => .map (hp P)

/-- A value that is thrown away is as silent. -/
theorem Silent.discard (hp : Silent p) : Silent (Functor.discard p) :=
  hp.map

/-- Silent parsers in turn are silent if the first value is kept. -/
theorem Silent.seqLeft (hp : Silent p) (hq : Silent q) : Silent (p <* q) :=
  fun P => (hp P).seqLeft fun _ => hq P

/-- Silent parsers in turn are silent if the second value is kept. -/
theorem Silent.seqRight (hp : Silent p) (hq : Silent q) : Silent (p *> q) :=
  fun P => (hp P).seqRight fun _ => hq P

/-- Silent alternatives are silent. -/
theorem Silent.orElse {q : Parser σ α} (hp : Silent p) (hq : Silent q) :
    Silent (p <|> q) :=
  fun P => (hp P).orElse (hq P)

/-- What may be missing is silent if it is so where it is there. -/
theorem Silent.optional (hp : Silent p) : Silent (Parser.optional p) :=
  fun P => .optional (hp P) fun _ h => h

/-- To refuse a value is silent. -/
theorem Silent.filter {accepts : α → Bool} {what : String} (hp : Silent p) :
    Silent (Parser.filter accepts what p) :=
  fun P => (hp P).filter.mono fun _ _ h => h.1

/-- What is only looked at is silent, whatever it notes. -/
theorem silent_lookAhead : Silent (lookAhead p) := fun _ => .lookAhead

/-- What must not follow is silent, whatever it notes. -/
theorem silent_notFollowedBy {what : String} : Silent (notFollowedBy p what) :=
  fun _ => .notFollowedBy

/-- What is only tried is silent, whatever it notes. -/
theorem silent_wouldMatch : Silent (wouldMatch p) := fun _ => .wouldMatch

/-- To ask for the offset is silent. -/
theorem silent_position : Silent (position : Parser σ Nat) := fun _ => .position

/-- An answer with the journal unchanged, or none. -/
theorem Silent.of_reply
    (h : ∀ c j, (∃ a c', p c j = .ok a c' j) ∨ ∀ a c' j', p c j ≠ .ok a c' j') :
    Silent p := by
  intro P c j a c' j' hP hp
  rcases h c j with ⟨a₁, c₁, hr⟩ | hr
  · rw [hr] at hp
    cases hp
    exact hP
  · exact absurd hp (hr a c' j')

/-- A repetition is silent if its items are. -/
theorem Silent.many {owed : Nat} (hp : Silent p) : Silent (Parser.many p owed) := by
  intro P c j as c' j' hP h
  fun_induction Parser.many p owed c j generalizing as c' with
  | case1 owed c j a c₁ j₁ hr _ ih =>
    obtain ⟨bs, hrest, rfl⟩ := Reply.of_map_eq_ok h
    exact ih (hp P hP hr) hrest
  | case2 owed c j a c₁ j₁ hr =>
    cases h
    exact hp P hP hr
  | case3 => cases h; exact hP
  | case4 => cases h
  | case5 => cases h

end

/-! ## Tokens -/

/-- To expect something that is not there is silent. -/
theorem silent_expected (what : String) : Silent (expected what : Parser σ α) :=
  fun _ _ _ _ _ _ _ h => nomatch h

/-- A run of characters is silent. -/
theorem silent_takeWhile (p : Char → Bool) : Silent (takeWhile p : Parser σ _) :=
  Silent.of_reply fun _ _ => .inl ⟨_, _, rfl⟩

/-- A run that must not be empty is silent. -/
theorem silent_takeWhile1 (p : Char → Bool) (what : String) :
    Silent (takeWhile1 p what : Parser σ _) := by
  refine Silent.of_reply fun c j => ?_
  rw [takeWhile1]
  split
  · exact .inr nofun
  · exact .inl ⟨_, _, rfl⟩

/-- A single character is silent. -/
theorem silent_satisfy (p : Char → Bool) (what : String) :
    Silent (satisfy p what : Parser σ _) := by
  refine Silent.of_reply fun c j => ?_
  rw [satisfy]
  split
  · split
    · exact .inl ⟨_, _, rfl⟩
    · exact .inr nofun
  · exact .inr nofun

/-- A fixed character is silent. -/
theorem silent_char (x : Char) : Silent (char x : Parser σ _) := silent_satisfy _ _

/-- Blanks are silent. -/
theorem silent_blanks : Silent (blanks : Parser σ _) := silent_takeWhile _

/-- Blanks of which there must be some are silent. -/
theorem silent_blanks1 : Silent (blanks1 : Parser σ _) := silent_takeWhile1 _ _

/-- White space is silent. -/
theorem silent_spaces : Silent (spaces : Parser σ _) := silent_takeWhile _

/-- A line break is silent. -/
theorem silent_newline : Silent (newline : Parser σ Unit) := by
  refine Silent.of_reply fun c j => ?_
  rw [newline]
  split
  · exact .inl ⟨_, _, rfl⟩
  · split
    · exact .inl ⟨_, _, rfl⟩
    · exact .inr nofun
  · exact .inr nofun

/-- The end of the source is silent. -/
theorem silent_eof : Silent (eof : Parser σ Unit) := by
  refine Silent.of_reply fun c j => ?_
  rw [eof]
  split
  · exact .inl ⟨_, _, rfl⟩
  · exact .inr nofun

/-- The end of a line is silent. -/
theorem silent_eol : Silent (eol : Parser σ Unit) :=
  silent_newline.orElse silent_eof

/-- A fixed text is silent. -/
theorem silent_tag (text : String) : Silent (tag text : Parser σ _) := by
  refine Silent.of_reply fun c j => ?_
  rw [tag]
  split
  · exact .inl ⟨_, _, rfl⟩
  · exact .inr nofun

/-- A word is silent. -/
theorem silent_keyword (word : String) : Silent (keyword word : Parser σ _) := by
  refine Silent.of_reply fun c j => ?_
  rw [keyword]
  split
  · exact .inl ⟨_, _, rfl⟩
  · exact .inr nofun

/-- An operator is silent. -/
theorem silent_symbol (spelling : String) : Silent (symbol spelling : Parser σ _) := by
  rw [symbol]
  split
  · exact silent_keyword _
  · exact silent_tag _

/-- A number is silent. -/
theorem silent_number : Silent (number : Parser σ _) := by
  refine Silent.of_reply fun c j => ?_
  rw [number]
  split
  · exact .inr nofun
  · split
    · exact .inl ⟨_, _, rfl⟩
    · exact .inr nofun

/-- A check of the column is silent. -/
theorem silent_indentation (accepts : Nat → Nat → Bool) (what : Nat → String) :
    Silent (indentation accepts what : Parser σ _) := by
  refine Silent.of_reply fun c j => ?_
  simp only [indentation]
  split
  · exact .inl ⟨_, _, rfl⟩
  · exact .inr nofun

/-- To ask for the same indentation is silent. -/
theorem silent_same : Silent (same : Parser σ _) := silent_indentation _ _

/-- To ask for the same indentation or more is silent. -/
theorem silent_sameOrIndented : Silent (sameOrIndented : Parser σ _) :=
  silent_indentation _ _

/-- To ask for more indentation is silent. -/
theorem silent_indented : Silent (indented : Parser σ _) := silent_indentation _ _

/-- Blank lines are silent. -/
theorem silent_blankLines : Silent (blankLines : Parser σ Unit) :=
  (silent_blanks.seqRight silent_newline).many.bind fun _ =>
    (silent_blanks.seqRight silent_eof).optional.discard

/-- The end of a line with the blank lines behind it is silent. -/
theorem silent_lineEnd : Silent (lineEnd : Parser σ Unit) := by
  intro P c j a c' j' hP h
  rw [lineEnd] at h
  split at h
  · exact silent_blankLines P hP h
  · exact silent_blanks.seqRight (silent_eol.seqRight silent_blankLines) P hP h

end Dialogue.Parser
