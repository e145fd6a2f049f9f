import Dialogue.Proofs.Parser.Run

/-!
# Fatal failures are final

A part of a plan that fails for good ends the whole run: no other part is started after it,
and the parts around it stop with the same failure, one after the other (`EndsWith`). The
other way round, a plan fails for good only with a part of it.

There are two exceptions, in which no part of the plan has failed: a leaf has no parts, and a
block or a chain that takes nothing would go on without end (`Tale`).
-/

namespace Dialogue

variable {σ α β : Type}

/-- The failure that a part stops with, where it fails for good. -/
def Event.fatal? : Event σ → Option (Nat × Reason)
  | .stop (some (.fatal i x)) => some (i, x)
  | _ => none

/-- A fatal event is that of a part that stops with this failure. -/
theorem Event.fatal?_eq_some {e : Event σ} {i : Nat} {x : Reason} :
    e.fatal? = some (i, x) ↔ e = .stop (some (.fatal i x)) := by
  constructor
  · rintro h
    unfold fatal? at h
    split at h <;> cases h
    rfl
  · rintro rfl
    rfl

/-- A part that stops is fatal if its reply is. -/
theorem Event.fatal?_stop (r : Reply σ α) :
    (Event.stop r.failure? : Event σ).fatal? = r.fatal? := by
  cases r <;> rfl

/-! ## What a run may look like -/

section

variable {l l₁ l₂ : List (Event σ)} {f : Option (Nat × Reason)} {r : Reply σ α}

/-- No part fails for good. -/
def Quiet (l : List (Event σ)) : Prop := ∀ e ∈ l, e.fatal? = none

/-- One event is quiet if it is not fatal. -/
theorem quiet_singleton {e : Event σ} (h : e.fatal? = none) : Quiet [e] :=
  List.forall_mem_singleton.2 h

/-- Quiet events one after the other are quiet. -/
theorem Quiet.append (h₁ : Quiet l₁) (h₂ : Quiet l₂) : Quiet (l₁ ++ l₂) :=
  List.forall_mem_append.2 ⟨h₁, h₂⟩

/-- The run ends with parts that stop with one fatal failure, and only with these. -/
def EndsWith (i : Nat) (x : Reason) (l : List (Event σ)) : Prop :=
  ∃ l₁ l₂, l = l₁ ++ l₂ ∧ Quiet l₁ ∧ l₂ ≠ [] ∧ ∀ e ∈ l₂, e.fatal? = some (i, x)

/-- The run ends with the fatal failure, if there is one, and is quiet otherwise. -/
def Told (l : List (Event σ)) : Option (Nat × Reason) → Prop
  | none => Quiet l
  | some (i, x) => EndsWith i x l

/-- The run is told by its parts, or else it would be without end. -/
def Tale (l : List (Event σ)) (f : Option (Nat × Reason)) : Prop :=
  Told l f ∨ Quiet l ∧ ∃ i, f = some (i, .endless)

/-- Quiet events may come before those that tell a failure. -/
theorem Told.append (h₁ : Quiet l₁) (h₂ : Told l₂ f) : Told (l₁ ++ l₂) f := by
  match f, h₂ with
  | none, h₂ => exact h₁.append h₂
  | some (i, x), ⟨l₃, l₄, hl, hq, hne, hall⟩ =>
    exact ⟨l₁ ++ l₃, l₄, by rw [hl, List.append_assoc], h₁.append hq, hne, hall⟩

/-- Quiet events may come before a tale. -/
theorem Tale.append (h₁ : Quiet l₁) (h₂ : Tale l₂ f) : Tale (l₁ ++ l₂) f :=
  h₂.imp (.append h₁) fun h => ⟨h₁.append h.1, h.2⟩

/-- A part stops as its own parts tell it, or is itself where a failure comes from. -/
theorem told_around (c : Cursor) (j : σ) (h : Told l r.fatal? ∨ Quiet l) :
    Told (around c j l r) r.fatal? := by
  have hstop := Event.fatal?_stop r
  have hstart : Quiet ([.start c j] : List (Event σ)) := quiet_singleton rfl
  generalize r.fatal? = f at h hstop
  refine (Told.append hstart ?_ : Told ([.start c j] ++ (l ++ [.stop r.failure?])) f)
  match f, h with
  | none, h => exact Quiet.append (or_self_iff.1 h) (quiet_singleton hstop)
  | some (i, x), .inl ⟨l₁, l₂, hl, hq, _, hall⟩ =>
    refine ⟨l₁, l₂ ++ [.stop r.failure?], by rw [hl, List.append_assoc], hq, by simp, ?_⟩
    exact List.forall_mem_append.2 ⟨hall, List.forall_mem_singleton.2 hstop⟩
  | some (i, x), .inr hq =>
    exact ⟨l, _, rfl, hq, List.cons_ne_nil _ _, List.forall_mem_singleton.2 hstop⟩

end

/-! ## Replies that the combinators pass on -/

/-- Whether a failure is fatal does not depend on the journal. -/
theorem Failure.fatal?_reply (e : Failure) (j j' : σ) :
    (e.reply j : Reply σ α).fatal? = (e.reply j' : Reply σ β).fatal? := by
  cases e <;> rfl

namespace Parser

variable {r : Reply σ α} {c : Cursor} {j : σ}

/-- What may be missing is fatal where its reply is. -/
theorem fatal?_optional : ((replying r).optional c j).fatal? = r.fatal? := by
  cases r <;> rfl

/-- What is checked is fatal where its reply is. -/
theorem fatal?_filter {accepts : α → Bool} {what : String} :
    ((replying r).filter accepts what c j).fatal? = r.fatal? := by
  rw [filter, replying]
  cases r with
  | ok a c' j' => dsimp only; split <;> rfl
  | miss i e j' => rfl
  | fatal i x j' => rfl

/-- A look ahead is fatal where its reply is. -/
theorem fatal?_lookAhead : ((replying r).lookAhead c j).fatal? = r.fatal? := by
  cases r <;> rfl

/-- A look for what must not be there is fatal where its reply is. -/
theorem fatal?_notFollowedBy {what : String} :
    ((replying r).notFollowedBy what c j).fatal? = r.fatal? := by
  cases r <;> rfl

/-- A question for what is ahead is fatal where its reply is. -/
theorem fatal?_wouldMatch : ((replying r).wouldMatch c j).fatal? = r.fatal? := by
  cases r <;> rfl

/-- A parser at its own column is fatal where its reply is. -/
theorem fatal?_atOwnIndent : ((replying r).atOwnIndent c j).fatal? = r.fatal? := by
  cases r <;> rfl

/-- An alternative to a miss is fatal where its reply is. -/
theorem fatal?_orElse {i : Nat} {e : List String} {j' : σ} :
    ((replying (.miss i e j')).orElse (replying r) c j).fatal? = r.fatal? := by
  cases r <;> rfl

/-- A first reading that is kept is fatal where its reply is. -/
theorem fatal?_reread {r : Reply σ (Option α)} {q : Parser σ α}
    (h : ∀ c' j', r ≠ .ok none c' j') : ((replying r).reread q c j).fatal? = r.fatal? := by
  rw [reread, replying]
  match r, h with
  | .ok none c' j', h => exact absurd rfl (h c' j')
  | .ok (some a) c' j', _ => rfl
  | .miss i e j', _ => rfl
  | .fatal i x j', _ => rfl

/-- The last step of a repetition is fatal where its reply is. -/
theorem fatal?_many {owed : Nat}
    (h : ∀ a c' j', r = .ok a c' j' → ¬c'.remaining < c.remaining) :
    ((replying r).many owed c j).fatal? = r.fatal? := by
  rw [many, replying]
  cases r with
  | ok a c' j' => simp only [h a c' j' rfl, dif_neg, not_false_eq_true, Reply.fatal?]
  | miss i e j' => dsimp only; split <;> rfl
  | fatal i x j' => rfl

/-- A repetition is fatal where a stop is that does not miss. -/
theorem fatal?_manyTill_stop {p : Parser σ β} (h : ∀ i e j', r ≠ .miss i e j') :
    (p.manyTill (replying r) c j).fatal? = r.fatal? := by
  rw [manyTill, replying]
  cases r with
  | ok a c' j' => rfl
  | miss i e j' => exact absurd rfl (h i e j')
  | fatal i x j' => rfl

/-- The last item before a stop is fatal where its reply is. -/
theorem fatal?_manyTill {i : Nat} {e : List String} {j' : σ}
    (h : ∀ a c' j', r = .ok a c' j' → ¬c'.remaining < c.remaining) :
    ((replying r).manyTill (replying (.miss i e j') : Parser σ β) c j).fatal? = r.fatal? := by
  rw [manyTill, replying, replying]
  cases r with
  | ok a c' j' => simp only [h a c' j' rfl, dif_neg, not_false_eq_true, Reply.fatal?]
  | miss i e j' => dsimp only; split <;> rfl
  | fatal i x j' => rfl

end Parser

open Dialogue.Parser

/-! ## Every run is told by its parts -/

section

variable {t : Plan σ α} {c : Cursor} {j : σ} {l : List (Event σ)} {r : Reply σ α}

/-- A run is a tale, or the one of a leaf. -/
def Plan.Tells (t : Plan σ α) (l : List (Event σ)) (r : Reply σ α) : Prop :=
  Tale l r.fatal? ∨ (∃ p, t = .leaf p) ∧ l = []

/-- What a part tells is told with its start and its stop around it. -/
theorem Plan.Tells.around (h : t.Tells l r) :
    Told (Dialogue.around c j l r) r.fatal? := by
  refine told_around c j ?_
  obtain (h | h) | ⟨-, rfl⟩ := h
  · exact .inl h
  · exact .inr h.1
  · exact .inr nofun

/-- The part is the only one that is run. -/
theorem Plan.Tells.only {u : Plan σ β} {r' : Reply σ β} (h : t.Tells l r)
    (hr : r'.fatal? = r.fatal?) : u.Tells (Dialogue.around c j l r) r' :=
  .inl (.inl (hr ▸ h.around))

/-- The part is the last one that is run. -/
theorem Plan.Tells.last {u : Plan σ β} {r' : Reply σ β} {l₁ : List (Event σ)} (hq : Quiet l₁)
    (h : t.Tells l r) (hr : r'.fatal? = r.fatal?) :
    u.Tells (l₁ ++ Dialogue.around c j l r) r' :=
  .inl (.inl (.append hq (hr ▸ h.around)))

/-- What is left is a run of its own. -/
theorem Plan.Tells.rest {u : Plan σ β} {r' : Reply σ β} {l₁ : List (Event σ)} (hq : Quiet l₁)
    (h : t.Tells l r) (ht : ∀ p, t ≠ .leaf p) (hr : r'.fatal? = r.fatal?) :
    u.Tells (l₁ ++ l) r' :=
  .inl (hr ▸ (h.resolve_right fun ⟨⟨p, hp⟩, _⟩ => ht p hp).append hq)

/-- A part that did not fail for good is quiet. -/
theorem Plan.Tells.quiet (h : t.Tells l r) (hr : r.fatal? = none) :
    Quiet (Dialogue.around c j l r) := by
  have := h.around (c := c) (j := j)
  rwa [hr] at this

end

mutual

/-- The events of a run tell its failure. -/
theorem Plan.Runs.tells {α : Type} {t : Plan σ α} {c : Cursor} {j : σ} {l : List (Event σ)}
    {r : Reply σ α} (h : t.Runs c j l r) : t.Tells l r :=
  match h with
  | .leaf _ => .inr ⟨⟨_, rfl⟩, rfl⟩
  | .delayed h => h.tells.only rfl
  | .bind hp hf => .last (hp.tells.quiet rfl) hf.tells rfl
  | .bind_fail hp => hp.tells.only (Failure.fatal?_reply ..)
  | .orElse_left hp _ => hp.tells.only rfl
  | .orElse_right hp hq => .last (hp.tells.quiet rfl) hq.tells fatal?_orElse
  | .many_next hp _ hrest => .rest (hp.tells.quiet rfl) hrest.tells nofun (Reply.fatal?_map ..)
  | .many_last hp h => hp.tells.only (fatal?_many h)
  | .manyTill_stop hs h => hs.tells.only (fatal?_manyTill_stop h)
  | .manyTill_next hs hp _ hrest =>
    .rest ((hs.tells.quiet rfl).append (hp.tells.quiet rfl)) hrest.tells nofun
      (Reply.fatal?_map ..)
  | .manyTill_last hs hp h => .last (hs.tells.quiet rfl) hp.tells (fatal?_manyTill h)
  | .block_last hi _ => hi.tells.only (Reply.fatal?_map ..)
  | .block_next hi _ hc _ hrest =>
    .rest ((hi.tells.quiet rfl).append (hc.tells.quiet rfl)) hrest.tells nofun
      (Reply.fatal?_map ..)
  | .block_stuck hi _ hc _ =>
    .inl (.inr ⟨(hi.tells.quiet rfl).append (hc.tells.quiet rfl), _, rfl⟩)
  | .block_miss hi _ hc => .last (hi.tells.quiet rfl) hc.tells (by split <;> rfl)
  | .block_fatal hi _ hc => .last (hi.tells.quiet rfl) hc.tells rfl
  | .optional hp => hp.tells.only fatal?_optional
  | .filter hp => hp.tells.only fatal?_filter
  | .chainRest_next hs _ hrest => .rest (hs.tells.quiet rfl) hrest.tells nofun rfl
  | .chainRest_stuck hs _ => .inl (.inr ⟨hs.tells.quiet rfl, _, rfl⟩)
  | .chainRest_miss hs => hs.tells.only rfl
  | .chainRest_fatal hs => hs.tells.only rfl
  | .lookAhead hp => hp.tells.only fatal?_lookAhead
  | .notFollowedBy hp => hp.tells.only fatal?_notFollowedBy
  | .wouldMatch hp => hp.tells.only fatal?_wouldMatch
  | .atOwnIndent hp => hp.tells.only fatal?_atOwnIndent
  | .reread_first hp h => hp.tells.only (fatal?_reread h)
  | .reread_second hp hq => .last (hp.tells.quiet rfl) hq.tells rfl
  | .inSteps h => .inl h.tale

/-- The events of a run of steps tell its failure, but for repetitions without end. -/
theorem Steps.Runs.tale {α : Type} {s : Steps σ α} {t : Checkpoint σ} {l : List (Event σ)}
    {r : Reply σ α} (h : s.Runs t l r) : Tale l r.fatal? :=
  match h with
  | .finish => .inl nofun
  | .settle => .inl nofun
  | .run hp h => h.tale.append (hp.tells.quiet rfl)
  | .run_fail hp => .inl (Failure.fatal?_reply .. ▸ hp.tells.around)
  | .indentHere h => h.tale
  | .commit h => h.tale
  | .rollback h => h.tale

end

section

variable {t : Plan σ α} {c : Cursor} {j : σ} {l before after : List (Event σ)} {e : Event σ}
  {r : Reply σ α} {i : Nat} {x : Reason}

/-- Behind a fatal event there are only stops with the same failure. -/
theorem Told.final {f : Option (Nat × Reason)} (h : Told (before ++ e :: after) f)
    (he : e.fatal? = some (i, x)) : f = some (i, x) ∧ ∀ e' ∈ after, e'.fatal? = some (i, x) := by
  match f, h with
  | none, h =>
    have := h e (by simp)
    rw [he] at this
    cases this
  | some (i', x'), ⟨l₁, l₂, hl, hq, _, hall⟩ =>
    -- The part is not one of the quiet ones, so it is one of those that stop with the failure.
    have hmem : ∃ as, l₂ = as ++ e :: after := by
      obtain ⟨as, -, h₂⟩ | ⟨bs, h₁, h₂⟩ := List.append_eq_append_iff.1 hl.symm
      · exact ⟨as, h₂⟩
      · cases bs with
        | nil => exact ⟨[], h₂.symm⟩
        | cons b bs =>
          obtain ⟨rfl, -⟩ := List.cons.inj h₂
          have := hq e (by simp [h₁])
          rw [he] at this
          cases this
    obtain ⟨as, rfl⟩ := hmem
    have heq : some (i', x') = some (i, x) := (hall e (by simp)).symm.trans he
    exact ⟨heq, fun e' h => heq ▸ hall e' (by simp [h])⟩

/-- After a part has failed for good, nothing is started, and all that is still open stops
    with this failure. -/
theorem Plan.Runs.final (h : t.Runs c j (before ++ e :: after) r) (he : e.fatal? = some (i, x)) :
    r.fatal? = some (i, x) ∧ ∀ e' ∈ after, e'.fatal? = some (i, x) := by
  have hmem : e ∈ before ++ e :: after := by simp
  obtain (hl | ⟨hq, -⟩) | ⟨-, hnil⟩ := h.tells
  · exact hl.final he
  · have := hq e hmem
    rw [he] at this
    cases this
  · rw [hnil] at hmem
    cases hmem

/-- A plan fails for good only with a part of it. -/
theorem Plan.Runs.exists_fatal (h : t.Runs c j l r) (hr : r.fatal? = some (i, x)) :
    (∃ e ∈ l, e.fatal? = some (i, x)) ∨ (∃ p, t = .leaf p) ∨ x = .endless := by
  obtain (hl | ⟨-, i', hx⟩) | ⟨hp, -⟩ := h.tells
  · rw [hr] at hl
    obtain ⟨l₁, l₂, rfl, -, hne, hall⟩ := hl
    obtain ⟨e, he⟩ := List.exists_mem_of_ne_nil l₂ hne
    exact .inl ⟨e, List.mem_append_right _ he, hall e he⟩
  · rw [hr] at hx
    cases hx
    exact .inr (.inr rfl)
  · exact .inr (.inl hp)

end

end Dialogue
