import Dialogue.Parser.Layout

/-!
# Replies

What a combinator replies where the replies of its parts are known: a sequence goes on where its
first part answers (`bind_eq`), alternatives are answered by the first that applies (`orElse_eq`,
`Misses.orElse_eq`), and a chain goes on as long as an operator and an operand are next
(`chainRest_eq`, `chainRest_of_misses`). What is expected where a parser misses is left open
(`Misses`). The other way round an answer is traced back to those of the parts (`of_bind_eq_ok`,
`of_orElse_eq_ok`).
-/

namespace Dialogue

variable {σ α β : Type}

/-- Only an answer is one with its value changed. -/
theorem Reply.of_map_eq_ok {f : α → β} {r : Reply σ α} {b : β} {c : Cursor} {j : σ}
    (h : r.map f = .ok b c j) : ∃ a, r = .ok a c j ∧ b = f a := by
  cases r with
  | ok a => cases h; exact ⟨a, rfl, rfl⟩
  | miss | fatal => cases h

/-- Only an answer has a value and a cursor to look at. -/
theorem Reply.of_outcome {f : α × Cursor → β} {r : Reply σ α} {b : β}
    (h : r.outcome.toOption.map f = some b) : ∃ a c j, r = .ok a c j ∧ f (a, c) = b := by
  cases r with
  | ok a c j => exact ⟨a, c, j, rfl, Option.some.inj h⟩
  | miss | fatal => cases h

namespace Parser

/-- The parser misses here. -/
def Misses (p : Parser σ α) (c : Cursor) (j : σ) : Prop := ∃ i e j', p c j = .miss i e j'

/-- What starts with a miss misses. -/
theorem Misses.bind {p : Parser σ α} {c : Cursor} {j : σ} (h : Misses p c j) (f : α → Parser σ β) :
    Misses (p >>= f) c j := by
  obtain ⟨i, e, j', h⟩ := h
  exact ⟨i, e, j', by rw [bind_apply, h]; rfl⟩

/-- What goes on with a miss misses as well. -/
theorem Misses.after {p : Parser σ α} {f : α → Parser σ β} {c c' : Cursor} {j j' : σ} {a : α}
    (hp : p c j = .ok a c' j') (hf : Misses (f a) c' j') : Misses (p >>= f) c j := by
  obtain ⟨i, e, j'', hf⟩ := hf
  exact ⟨i, e, j'', by rw [bind_apply, hp]; exact hf⟩

/-- An alternative misses if both of its parsers do. -/
theorem Misses.orElse {p q : Parser σ α} {c : Cursor} {j : σ} (hp : Misses p c j)
    (hq : Misses q c j) : Misses (p <|> q) c j := by
  obtain ⟨i, e, j', hp⟩ := hp
  obtain ⟨i', e', j'', hq⟩ := hq
  refine ⟨c.index, Failure.union e e', j, ?_⟩
  change Parser.orElse p q c j = _
  rw [Parser.orElse, hp, hq]

/-- Where the first alternative misses, the second one is answered. -/
theorem Misses.orElse_eq {p q : Parser σ α} {c c' : Cursor} {j j' : σ} {a : α}
    (hp : Misses p c j) (hq : q c j = .ok a c' j') : (p <|> q) c j = .ok a c' j' := by
  obtain ⟨i, e, j'', hp⟩ := hp
  change Parser.orElse p q c j = _
  rw [Parser.orElse, hp, hq]

/-- An alternative answers what its first parser does. -/
theorem orElse_eq {p q : Parser σ α} {c c' : Cursor} {j j' : σ} {a : α}
    (hp : p c j = .ok a c' j') : (p <|> q) c j = .ok a c' j' := by
  change Parser.orElse p q c j = _
  rw [Parser.orElse, hp]

/-- The first alternative is taken unless it misses. -/
theorem orElse_of_not_misses {p q : Parser σ α} {c : Cursor} {j : σ} (h : ¬Misses p c j) :
    (p <|> q) c j = p c j := by
  change Parser.orElse p q c j = _
  rw [Parser.orElse]
  cases hp : p c j with
  | ok => rfl
  | miss i e k => exact absurd ⟨i, e, k, hp⟩ h
  | fatal => rfl

/-- Where it misses the second one is taken, unless that misses as well. -/
theorem Misses.orElse_of_not_misses {p q : Parser σ α} {c : Cursor} {j : σ} (hp : Misses p c j)
    (h : ¬Misses q c j) : (p <|> q) c j = q c j := by
  obtain ⟨i, e, k, hp⟩ := hp
  change Parser.orElse p q c j = _
  rw [Parser.orElse, hp]
  cases hq : q c j with
  | ok => rfl
  | miss i e k => exact absurd ⟨i, e, k, hq⟩ h
  | fatal => rfl

/-- A sequence goes on behind its first answer. -/
theorem bind_eq {p : Parser σ α} {f : α → Parser σ β} {c c' : Cursor} {j j' : σ} {a : α}
    (hp : p c j = .ok a c' j') : (p >>= f) c j = f a c' j' := by
  rw [bind_apply, hp]
  rfl

/-- An answer is mapped. -/
theorem map_eq {p : Parser σ α} {f : α → β} {c c' : Cursor} {j j' : σ} {a : α}
    (hp : p c j = .ok a c' j') : (f <$> p) c j = .ok (f a) c' j' :=
  bind_eq hp

/-- What may be missing is answered where it is there. -/
theorem optional_of_ok {p : Parser σ α} {c c' : Cursor} {j j' : σ} {a : α}
    (h : p c j = .ok a c' j') : optional p c j = .ok (some a) c' j' := by
  rw [optional, h]

/-- What may be missing is left out where it is not there. -/
theorem Misses.optional {p : Parser σ α} {c : Cursor} {j : σ} (h : Misses p c j) :
    Parser.optional p c j = .ok none c j := by
  obtain ⟨i, e, j', h⟩ := h
  rw [Parser.optional, h]

/-- A question is answered with yes where the parser would answer. -/
theorem wouldMatch_of_ok {p : Parser σ α} {c c' : Cursor} {j j' : σ} {a : α}
    (h : p c j = .ok a c' j') : wouldMatch p c j = .ok true c j := by
  rw [wouldMatch, h]

/-- A question is answered with no where the parser would miss. -/
theorem Misses.wouldMatch {p : Parser σ α} {c : Cursor} {j : σ} (h : Misses p c j) :
    Parser.wouldMatch p c j = .ok false c j := by
  obtain ⟨i, e, j', h⟩ := h
  rw [Parser.wouldMatch, h]

/-- What is missing is not checked. -/
theorem Misses.filter {accepts : α → Bool} {p : Parser σ α} {c : Cursor} {j : σ}
    (h : Misses p c j) (what : String) : Misses (Parser.filter accepts what p) c j := by
  obtain ⟨i, e, j', h⟩ := h
  exact ⟨i, e, j', by rw [Parser.filter, h]⟩

/-- A value that is refused is no answer. -/
theorem misses_filter {accepts : α → Bool} {p : Parser σ α} {c c' : Cursor} {j j' : σ} {a : α}
    (h : p c j = .ok a c' j') (ha : accepts a = false) (what : String) :
    Misses (filter accepts what p) c j :=
  ⟨c.index, [what], j, by simp only [filter, h, ha, Bool.false_eq_true, if_false]⟩

/-- What must not be there and is makes a miss. -/
theorem misses_notFollowedBy {p : Parser σ α} {c c' : Cursor} {j j' : σ} {a : α}
    (h : p c j = .ok a c' j') (what : String) : Misses (notFollowedBy p what) c j :=
  ⟨c.index, [what], j, by rw [notFollowedBy, h]⟩

/-- What must not be there and is not changes nothing. -/
theorem Misses.notFollowedBy {p : Parser σ α} {c : Cursor} {j : σ} (h : Misses p c j)
    (what : String) : Parser.notFollowedBy p what c j = .ok () c j := by
  obtain ⟨i, e, j', h⟩ := h
  rw [Parser.notFollowedBy, h]

/-! ## Chains -/

section

variable {operand : Parser σ α} {operator : Parser σ (α → α → α)} {c c₁ c₂ : Cursor}
  {j j₁ j₂ : σ}

/-- Where no operator is next, a chain ends. -/
theorem chainRest_of_misses (h : Misses operator c j) (acc : α) :
    chainRest operand operator acc c j = .ok acc c j := by
  obtain ⟨i, e, j', h⟩ := h.bind fun f => operand >>= fun a => (pure (f acc a) : Parser σ α)
  rw [chainRest, h]

/-- Over an operator and an operand a chain goes on. -/
theorem chainRest_eq {f : α → α → α} {a : α} (hf : operator c j = .ok f c₁ j₁)
    (ha : operand c₁ j₁ = .ok a c₂ j₂) (hlt : c₂.remaining < c.remaining) (acc : α) :
    chainRest operand operator acc c j = chainRest operand operator (f acc a) c₂ j₂ := by
  have h : (operator >>= fun f => operand >>= fun a => (pure (f acc a) : Parser σ α)) c j =
      .ok (f acc a) c₂ j₂ :=
    (bind_eq hf).trans (bind_eq ha)
  rw [chainRest, h]
  exact dif_pos hlt

end

/-! ## Answers traced back -/

/-- What answers in turn are together an answer. -/
theorem of_bind_eq_ok {p : Parser σ α} {f : α → Parser σ β} {c c' : Cursor} {j j' : σ} {b : β}
    (h : (p >>= f) c j = .ok b c' j') :
    ∃ a c₁ j₁, p c j = .ok a c₁ j₁ ∧ f a c₁ j₁ = .ok b c' j' := by
  rw [bind_apply] at h
  cases hr : p c j with
  | ok a c₁ j₁ =>
    rw [hr] at h
    exact ⟨a, c₁, j₁, rfl, h⟩
  | miss _ _ _ => rw [hr] at h; cases h
  | fatal _ _ _ => rw [hr] at h; cases h

/-- An alternative that answers is the first one, or the other one where the first misses. -/
theorem of_orElse_eq_ok {p q : Parser σ α} {c c' : Cursor} {j j' : σ} {a : α}
    (h : (p <|> q) c j = .ok a c' j') :
    p c j = .ok a c' j' ∨ Misses p c j ∧ q c j = .ok a c' j' := by
  change Parser.orElse p q c j = _ at h
  rw [Parser.orElse] at h
  cases hp : p c j with
  | ok _ _ _ =>
    rw [hp] at h
    exact .inl h
  | miss i e k =>
    rw [hp] at h
    cases hq : q c j with
    | ok _ _ _ =>
      rw [hq] at h
      exact .inr ⟨⟨i, e, k, hp⟩, h⟩
    | miss _ _ _ => rw [hq] at h; cases h
    | fatal _ _ _ => rw [hq] at h; cases h
  | fatal _ _ _ => rw [hp] at h; cases h

/-- Where alternatives miss, each of them does. -/
theorem misses_of_orElse {p q : Parser σ α} {c : Cursor} {j : σ} (h : Misses (p <|> q) c j) :
    Misses p c j ∧ Misses q c j := by
  have hp : Misses p c j := Classical.byContradiction fun hp => by
    rw [Misses, orElse_of_not_misses hp] at h
    exact hp h
  refine ⟨hp, Classical.byContradiction fun hq => ?_⟩
  rw [Misses, hp.orElse_of_not_misses hq] at h
  exact hq h

/-- What goes on without fail misses only where its first part does. -/
theorem misses_of_map {p : Parser σ α} {f : α → β} {c : Cursor} {j : σ}
    (h : Misses (f <$> p) c j) : Misses p c j := by
  obtain ⟨i, e, j', h⟩ := h
  cases hp : p c j with
  | ok a c' j' => cases (map_eq hp).symm.trans h
  | miss i e j' => exact ⟨i, e, j', hp⟩
  | fatal i r j' =>
    rw [map_eq_pure_bind, bind_apply, hp] at h
    cases h

/-- An optional answer is an answer, or nothing where there is none. -/
theorem of_optional_eq_ok {p : Parser σ α} {c c' : Cursor} {j j' : σ} {o : Option α}
    (h : optional p c j = .ok o c' j') :
    (∃ a, o = some a ∧ p c j = .ok a c' j') ∨
      o = none ∧ c' = c ∧ j' = j ∧ Misses p c j := by
  rw [optional] at h
  split at h
  · rename_i hr
    cases h
    exact .inl ⟨_, rfl, hr⟩
  · rename_i hr
    cases h
    exact .inr ⟨rfl, rfl, rfl, _, _, _, hr⟩
  · cases h

/-- What is looked at is there, and is not taken. -/
theorem of_lookAhead_eq_ok {p : Parser σ α} {c c' : Cursor} {j j' : σ}
    (h : lookAhead p c j = .ok () c' j') : c' = c ∧ j' = j ∧ ∃ a d k, p c j = .ok a d k := by
  rw [lookAhead] at h
  split at h <;> cases h
  exact ⟨rfl, rfl, _, _, _, ‹_›⟩

/-- What must not follow is missing, and nothing is taken. -/
theorem of_notFollowedBy_eq_ok {p : Parser σ α} {what : String} {c c' : Cursor} {j j' : σ}
    (h : notFollowedBy p what c j = .ok () c' j') : c' = c ∧ j' = j ∧ Misses p c j := by
  rw [notFollowedBy] at h
  split at h <;> cases h
  exact ⟨rfl, rfl, _, _, _, ‹_›⟩

/-- What would match is told without taking it. -/
theorem of_wouldMatch_eq_ok {p : Parser σ α} {b : Bool} {c c' : Cursor} {j j' : σ}
    (h : wouldMatch p c j = .ok b c' j') :
    c' = c ∧ j' = j ∧ (b = true ∧ (∃ a d k, p c j = .ok a d k) ∨ b = false ∧ Misses p c j) := by
  rw [wouldMatch] at h
  split at h <;> cases h
  · exact ⟨rfl, rfl, .inl ⟨rfl, _, _, _, ‹_›⟩⟩
  · exact ⟨rfl, rfl, .inr ⟨rfl, _, _, _, ‹_›⟩⟩

/-- A value that is not refused is an answer. -/
theorem of_filter_eq_ok {accepts : α → Bool} {what : String} {p : Parser σ α} {c c' : Cursor}
    {j j' : σ} {a : α} (h : filter accepts what p c j = .ok a c' j') :
    p c j = .ok a c' j' ∧ accepts a := by
  rw [filter] at h
  split at h
  · rename_i hr
    split at h
    · rename_i ha
      cases h
      exact ⟨hr, ha⟩
    · cases h
  · rename_i hne
    exact absurd h (hne _ _ _)

/-- What a parser answers with its own indentation it answers at the place as the reference. -/
theorem of_atOwnIndent_eq_ok {p : Parser σ α} {c c' : Cursor} {j j' : σ} {a : α}
    (h : atOwnIndent p c j = .ok a c' j') :
    ∃ c₁, p (c.withReference c.here) j = .ok a c₁ j' ∧ c' = c₁.withReference c.reference := by
  rw [atOwnIndent] at h
  split at h
  · cases h
    exact ⟨_, ‹_›, rfl⟩
  · exact absurd h (by rename_i hne; exact hne _ _ _)

end Parser

end Dialogue
