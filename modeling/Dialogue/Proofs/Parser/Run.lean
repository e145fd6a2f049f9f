import Dialogue.Proofs.Parser.Plan

/-!
# Runs

What happens while a plan is run: its parts are started one after the other, each at a place
and with a journal, and each of them stops, with or without a failure. These *events* are
given together with the reply (`Plan.Runs`). What a combinator makes of the replies of its
parts is what it makes of parsers that only give these replies, so the events of a run are
all that its reply depends on, and no part is started that has none.

* `Plan.exists_runs`, `Plan.Runs.reply_eq`: a plan has a run at every place, and the reply
  of every run is that of its parser.
-/

namespace Dialogue

variable {σ α β : Type}

namespace Reply

/-- The failure, if it is one. -/
def failure? : Reply σ α → Option Failure
  | ok _ _ _ => none
  | miss i e _ => some (.miss i e)
  | fatal i x _ => some (.fatal i x)

/-- The offset and the reason of a fatal failure. -/
def fatal? : Reply σ α → Option (Nat × Reason)
  | fatal i x _ => some (i, x)
  | _ => none

/-- Mapping the answer does not change what was fatal. -/
theorem fatal?_map (f : α → β) (r : Reply σ α) : (r.map f).fatal? = r.fatal? := by
  cases r <;> rfl

/-- A reply has a fatal failure if that is its outcome. -/
theorem fatal?_eq_some {r : Reply σ α} {i : Nat} {x : Reason} :
    r.fatal? = some (i, x) ↔ r.outcome = .error (.fatal i x) := by
  cases r <;> simp [fatal?, outcome]

end Reply

/-- Something that happens while a plan is run. -/
inductive Event (σ : Type) where
  /-- A part of it is started. -/
  | start (c : Cursor) (j : σ)
  /-- A part of it stops, with a failure or none. -/
  | stop (failure : Option Failure)

/-- The events of a part, with its start and its stop. -/
def around (c : Cursor) (j : σ) (l : List (Event σ)) (r : Reply σ α) : List (Event σ) :=
  .start c j :: l ++ [.stop r.failure?]

/-- A parser that gives one reply only. -/
def Parser.replying (r : Reply σ α) : Parser σ α := fun _ _ => r

open Dialogue.Parser (replying)

namespace Parser

/-! ## Single steps of the repetitions -/

section

variable {p : Parser σ α} {stop : Parser σ β} {c c' : Cursor} {j j' : σ} {a : α}

/-- A repetition goes on behind an item that has consumed something. -/
theorem many_next (owed : Nat) (hp : p c j = .ok a c' j') (h : c'.remaining < c.remaining) :
    p.many owed c j = (p.many (owed - 1) c' j').map (a :: ·) := by
  rw [many, hp]
  exact dif_pos h

/-- The last step of a repetition depends on the reply of its item only. -/
theorem many_last (owed : Nat) (h : ∀ a c' j', p c j = .ok a c' j' → ¬c'.remaining < c.remaining) :
    p.many owed c j = (replying (p c j)).many owed c j := by
  rw [many, many, replying]
  cases hp : p c j with
  | ok a c' j' => simp only [h a c' j' hp, dif_neg, not_false_eq_true]
  | miss i e j' => rfl
  | fatal i x j' => rfl

/-- A repetition whose stop does not miss depends on the reply of the stop only. -/
theorem manyTill_stop (h : ∀ i e j', stop c j ≠ .miss i e j') :
    p.manyTill stop c j = p.manyTill (replying (stop c j)) c j := by
  rw [manyTill, manyTill, replying]
  cases hs : stop c j with
  | miss i e j' => exact absurd hs (h i e j')
  | ok b c' j' => rfl
  | fatal i x j' => rfl

/-- A repetition goes on behind an item where its stop misses. -/
theorem manyTill_next {i : Nat} {e : List String} {j'' : σ} (hs : stop c j = .miss i e j')
    (hp : p c j = .ok a c' j'') (h : c'.remaining < c.remaining) :
    p.manyTill stop c j = (p.manyTill stop c' j'').map (a :: ·) := by
  rw [manyTill, hs, hp]
  exact dif_pos h

/-- The last step of a repetition depends on the replies of stop and item only. -/
theorem manyTill_last {i : Nat} {e : List String} (hs : stop c j = .miss i e j')
    (h : ∀ a c' j', p c j = .ok a c' j' → ¬c'.remaining < c.remaining) :
    p.manyTill stop c j =
      (replying (p c j)).manyTill (replying (.miss i e j') : Parser σ β) c j := by
  rw [manyTill, manyTill, hs, replying, replying]
  cases hp : p c j with
  | ok a c' j' => simp only [h a c' j' hp, dif_neg, not_false_eq_true]
  | miss i e j' => rfl
  | fatal i x j' => rfl

variable {item : Parser σ α} {continues : Parser σ β}
  {b : β} {c'' : Cursor} {j'' : σ} {i : Nat} {e : List String} {x : Reason}

/-- The last line of a block depends on its reply only. -/
theorem block_last (owed : Nat)
    (h : ∀ a c' j', (item <* lineEnd) c j = .ok a c' j' → c'.atEnd) :
    block item continues owed c j = ((item <* lineEnd) c j).map ([·]) := by
  rw [block]
  cases hi : (item <* lineEnd) c j with
  | ok a c' j' => exact if_pos (h a c' j' hi)
  | miss i e j' => rfl
  | fatal i x j' => rfl

/-- A block goes on with the line behind the blank ones. -/
theorem block_next (owed : Nat) (hi : (item <* lineEnd) c j = .ok a c' j')
    (he : c'.atEnd = false)
    (hc : continues (c'.skipWhile Text.isBlank) j' = .ok b c'' j'')
    (h : (c'.skipWhile Text.isBlank).remaining < c.remaining) :
    block item continues owed c j =
      (block item continues (owed - 1) (c'.skipWhile Text.isBlank) j'').map (a :: ·) := by
  rw [block, hi]
  simp only [he, Bool.false_eq_true, if_false, hc, h, dif_pos]

/-- A block that does not get ahead ends fatally. -/
theorem block_stuck (owed : Nat) (hi : (item <* lineEnd) c j = .ok a c' j')
    (he : c'.atEnd = false)
    (hc : continues (c'.skipWhile Text.isBlank) j' = .ok b c'' j'')
    (h : ¬(c'.skipWhile Text.isBlank).remaining < c.remaining) :
    block item continues owed c j = .fatal (c'.skipWhile Text.isBlank).index .endless j'' := by
  rw [block, hi]
  simp only [he, Bool.false_eq_true, if_false, hc, h, dif_neg, not_false_eq_true]

/-- A block ends where it is not continued, and fails if it still owes items. -/
theorem block_miss (owed : Nat) (hi : (item <* lineEnd) c j = .ok a c' j')
    (he : c'.atEnd = false)
    (hc : continues (c'.skipWhile Text.isBlank) j' = .miss i e j'') :
    block item continues owed c j =
      if owed ≤ 1 then .ok [a] c' j' else .miss i [Failure.owing (owed - 1) e] j' := by
  rw [block, hi]
  simp only [he, Bool.false_eq_true, if_false, hc]

/-- A continuation that fails fatally makes the block do so. -/
theorem block_fatal (owed : Nat) (hi : (item <* lineEnd) c j = .ok a c' j')
    (he : c'.atEnd = false)
    (hc : continues (c'.skipWhile Text.isBlank) j' = .fatal i x j'') :
    block item continues owed c j = .fatal i x j'' := by
  rw [block, hi]
  simp only [he, Bool.false_eq_true, if_false, hc]

variable {operand : Parser σ α} {operator : Parser σ (α → α → α)} {acc acc' : α}

/-- A chain goes on with what its operator makes of two operands. -/
theorem chainRest_next
    (hs : (do let f ← operator; let a ← operand; pure (f acc a) : Parser σ α) c j = .ok acc' c' j')
    (h : c'.remaining < c.remaining) :
    chainRest operand operator acc c j = chainRest operand operator acc' c' j' := by
  rw [chainRest, hs]
  exact dif_pos h

/-- A chain that does not get ahead ends fatally. -/
theorem chainRest_stuck
    (hs : (do let f ← operator; let a ← operand; pure (f acc a) : Parser σ α) c j = .ok acc' c' j')
    (h : ¬c'.remaining < c.remaining) :
    chainRest operand operator acc c j = .fatal c.index .endless j' := by
  rw [chainRest, hs]
  exact dif_neg h

/-- A chain ends before an operator or operand that is missing. -/
theorem chainRest_miss
    (hs : (do let f ← operator; let a ← operand; pure (f acc a) : Parser σ α) c j = .miss i e j') :
    chainRest operand operator acc c j = .ok acc c j := by
  rw [chainRest, hs]

/-- A chain fails fatally where its operator or operand does. -/
theorem chainRest_fatal
    (hs : (do let f ← operator; let a ← operand; pure (f acc a) : Parser σ α) c j = .fatal i x j') :
    chainRest operand operator acc c j = .fatal i x j' := by
  rw [chainRest, hs]

end

end Parser

/-! ## Runs -/

mutual

/-- A plan is run at a place, with a journal: what happens to its parts, and the reply. -/
inductive Plan.Runs : {α : Type} → Plan σ α → Cursor → σ → List (Event σ) → Reply σ α → Prop
  | leaf {α : Type} {p : Parser σ α} {c j r} (h : p c j = r) : Plan.Runs (.leaf p) c j [] r
  | delayed {α : Type} {make : Cursor → Plan σ α} {c j l r} (h : (make c).Runs c j l r) :
    Plan.Runs (.delayed make) c j (around c j l r) r
  | bind {α β : Type} {p : Plan σ α} {f : α → Plan σ β} {c j l a c' j' l' r}
    (hp : p.Runs c j l (.ok a c' j')) (hf : (f a).Runs c' j' l' r) :
    Plan.Runs (.bind p f) c j (around c j l (.ok a c' j') ++ around c' j' l' r) r
  | bind_fail {α β : Type} {p : Plan σ α} {f : α → Plan σ β} {c j l e j'}
    (hp : p.Runs c j l (Failure.reply j' e)) :
    Plan.Runs (.bind p f) c j (around c j l (α := α) (e.reply j')) (e.reply j')
  | orElse_left {α : Type} {p q : Plan σ α} {c j l r} (hp : p.Runs c j l r)
    (h : ∀ i e j', r ≠ .miss i e j') : Plan.Runs (.orElse p q) c j (around c j l r) r
  | orElse_right {α : Type} {p q : Plan σ α} {c j l i e j' l' r}
    (hp : p.Runs c j l (.miss i e j')) (hq : q.Runs c j l' r) :
    Plan.Runs (.orElse p q) c j (around c j l (α := α) (.miss i e j') ++ around c j l' r)
      ((replying (.miss i e j')).orElse (replying r) c j)
  -- A repetition goes on where an item took something.
  | many_next {α : Type} {p : Plan σ α} {owed c j l a c' j' l' r}
    (hp : p.Runs c j l (.ok a c' j')) (h : c'.remaining < c.remaining)
    (hrest : Plan.Runs (.many p (owed - 1)) c' j' l' r) :
    Plan.Runs (.many p owed) c j (around c j l (.ok a c' j') ++ l') (r.map (a :: ·))
  | many_last {α : Type} {p : Plan σ α} {owed c j l r} (hp : p.Runs c j l r)
    (h : ∀ a c' j', r = .ok a c' j' → ¬c'.remaining < c.remaining) :
    Plan.Runs (.many p owed) c j (around c j l r) ((replying r).many owed c j)
  | manyTill_stop {α β : Type} {p : Plan σ α} {stop : Plan σ β} {c j l r}
    (hs : stop.Runs c j l r) (h : ∀ i e j', r ≠ .miss i e j') :
    Plan.Runs (.manyTill p stop) c j (around c j l r) (p.parser.manyTill (replying r) c j)
  | manyTill_next {α β : Type} {p : Plan σ α} {stop : Plan σ β} {c j l i e j' l' a c' j'' l'' r}
    (hs : stop.Runs c j l (.miss i e j')) (hp : p.Runs c j l' (.ok a c' j''))
    (h : c'.remaining < c.remaining) (hrest : Plan.Runs (.manyTill p stop) c' j'' l'' r) :
    Plan.Runs (.manyTill p stop) c j
      (around c j l (α := β) (.miss i e j') ++ around c j l' (.ok a c' j'') ++ l'')
      (r.map (a :: ·))
  | manyTill_last {α β : Type} {p : Plan σ α} {stop : Plan σ β} {c j l i e j' l' r}
    (hs : stop.Runs c j l (.miss i e j')) (hp : p.Runs c j l' r)
    (h : ∀ a c' j', r = .ok a c' j' → ¬c'.remaining < c.remaining) :
    Plan.Runs (.manyTill p stop) c j (around c j l (α := β) (.miss i e j') ++ around c j l' r)
      ((replying r).manyTill (replying (α := β) (.miss i e j')) c j)
  | block_last {α β : Type} {item : Plan σ α} {continues : Plan σ β} {owed c j l r}
    (hi : item.line.Runs c j l r) (h : ∀ a c' j', r = .ok a c' j' → c'.atEnd) :
    Plan.Runs (.block item continues owed) c j (around c j l r) (r.map fun a => [a])
  | block_next {α β : Type} {item : Plan σ α} {continues : Plan σ β}
    {owed c j l a c' j' l' b c'' j'' l'' r}
    (hi : item.line.Runs c j l (.ok a c' j')) (he : c'.atEnd = false)
    (hc : continues.Runs (c'.skipWhile Text.isBlank) j' l' (.ok b c'' j''))
    (h : (c'.skipWhile Text.isBlank).remaining < c.remaining)
    (hrest : Plan.Runs (.block item continues (owed - 1)) (c'.skipWhile Text.isBlank) j'' l'' r) :
    Plan.Runs (.block item continues owed) c j
      (around c j l (.ok a c' j') ++ around (c'.skipWhile Text.isBlank) j' l' (.ok b c'' j'')
        ++ l'')
      (r.map (a :: ·))
  | block_stuck {α β : Type} {item : Plan σ α} {continues : Plan σ β}
    {owed c j l a c' j' l' b c'' j''}
    (hi : item.line.Runs c j l (.ok a c' j')) (he : c'.atEnd = false)
    (hc : continues.Runs (c'.skipWhile Text.isBlank) j' l' (.ok b c'' j''))
    (h : ¬(c'.skipWhile Text.isBlank).remaining < c.remaining) :
    Plan.Runs (.block item continues owed) c j
      (around c j l (.ok a c' j') ++ around (c'.skipWhile Text.isBlank) j' l' (.ok b c'' j''))
      (.fatal (c'.skipWhile Text.isBlank).index .endless j'')
  | block_miss {α β : Type} {item : Plan σ α} {continues : Plan σ β}
    {owed c j l a c' j' l' i e j''}
    (hi : item.line.Runs c j l (.ok a c' j')) (he : c'.atEnd = false)
    (hc : continues.Runs (c'.skipWhile Text.isBlank) j' l' (.miss i e j'')) :
    Plan.Runs (.block item continues owed) c j
      (around c j l (.ok a c' j') ++
        around (c'.skipWhile Text.isBlank) j' l' (α := β) (.miss i e j''))
      (if owed ≤ 1 then .ok [a] c' j' else .miss i [Failure.owing (owed - 1) e] j')
  | block_fatal {α β : Type} {item : Plan σ α} {continues : Plan σ β}
    {owed c j l a c' j' l' i x j''}
    (hi : item.line.Runs c j l (.ok a c' j')) (he : c'.atEnd = false)
    (hc : continues.Runs (c'.skipWhile Text.isBlank) j' l' (.fatal i x j'')) :
    Plan.Runs (.block item continues owed) c j
      (around c j l (.ok a c' j') ++
        around (c'.skipWhile Text.isBlank) j' l' (α := β) (.fatal i x j''))
      (.fatal i x j'')
  | optional {α : Type} {p : Plan σ α} {c j l r} (hp : p.Runs c j l r) :
    Plan.Runs (.optional p) c j (around c j l r) ((replying r).optional c j)
  | filter {α : Type} {accepts : α → Bool} {what : String} {p : Plan σ α} {c j l r}
    (hp : p.Runs c j l r) :
    Plan.Runs (.filter accepts what p) c j (around c j l r) ((replying r).filter accepts what c j)
  | chainRest_next {α : Type} {operand : Plan σ α} {operator : Plan σ (α → α → α)}
    {acc c j l acc' c' j' l' r}
    (hs : (operand.link operator acc).Runs c j l (.ok acc' c' j'))
    (h : c'.remaining < c.remaining)
    (hrest : Plan.Runs (.chainRest operand operator acc') c' j' l' r) :
    Plan.Runs (.chainRest operand operator acc) c j (around c j l (.ok acc' c' j') ++ l') r
  | chainRest_stuck {α : Type} {operand : Plan σ α} {operator : Plan σ (α → α → α)}
    {acc c j l acc' c' j'}
    (hs : (operand.link operator acc).Runs c j l (.ok acc' c' j'))
    (h : ¬c'.remaining < c.remaining) :
    Plan.Runs (.chainRest operand operator acc) c j (around c j l (.ok acc' c' j'))
      (.fatal c.index .endless j')
  | chainRest_miss {α : Type} {operand : Plan σ α} {operator : Plan σ (α → α → α)}
    {acc c j l i e j'} (hs : (operand.link operator acc).Runs c j l (.miss i e j')) :
    Plan.Runs (.chainRest operand operator acc) c j (around c j l (α := α) (.miss i e j'))
      (.ok acc c j)
  | chainRest_fatal {α : Type} {operand : Plan σ α} {operator : Plan σ (α → α → α)}
    {acc c j l i x j'} (hs : (operand.link operator acc).Runs c j l (.fatal i x j')) :
    Plan.Runs (.chainRest operand operator acc) c j (around c j l (α := α) (.fatal i x j'))
      (.fatal i x j')
  | lookAhead {α : Type} {p : Plan σ α} {c j l r} (hp : p.Runs c j l r) :
    Plan.Runs (.lookAhead p) c j (around c j l r) ((replying r).lookAhead c j)
  | notFollowedBy {α : Type} {p : Plan σ α} {what : String} {c j l r} (hp : p.Runs c j l r) :
    Plan.Runs (.notFollowedBy p what) c j (around c j l r) ((replying r).notFollowedBy what c j)
  | wouldMatch {α : Type} {p : Plan σ α} {c j l r} (hp : p.Runs c j l r) :
    Plan.Runs (.wouldMatch p) c j (around c j l r) ((replying r).wouldMatch c j)
  | atOwnIndent {α : Type} {p : Plan σ α} {c j l r}
    (hp : p.Runs (c.withReference c.here) j l r) :
    Plan.Runs (.atOwnIndent p) c j (around (c.withReference c.here) j l r)
      ((replying r).atOwnIndent c j)
  | reread_first {α : Type} {p : Plan σ (Option α)} {q : Plan σ α} {c j l r}
    (hp : p.Runs c j l r) (h : ∀ c' j', r ≠ .ok none c' j') :
    Plan.Runs (.reread p q) c j (around c j l r) ((replying r).reread q.parser c j)
  | reread_second {α : Type} {p : Plan σ (Option α)} {q : Plan σ α} {c j l c' j' l' r}
    (hp : p.Runs c j l (.ok none c' j')) (hq : q.Runs c j l' r) :
    Plan.Runs (.reread p q) c j (around c j l (α := Option α) (.ok none c' j') ++ around c j l' r) r
  | inSteps {α : Type} {s : Steps σ α} {c j l r} (h : s.Runs (.start c j) l r) :
    Plan.Runs (.inSteps s) c j l r

/-- Steps are taken on a checkpoint: what happens to the plans that are run, and the reply. -/
inductive Steps.Runs : {α : Type} → Steps σ α → Checkpoint σ → List (Event σ) → Reply σ α → Prop
  | finish {α : Type} {a : α} {t : Checkpoint σ} :
    Steps.Runs (.finish a) t [] (.ok a t.finish.1 t.finish.2)
  | settle {α : Type} {a : α} {t : Checkpoint σ} :
    Steps.Runs (.settle a) t [] (.ok a t.settle.1 t.settle.2)
  | run {α β : Type} {p : Plan σ α} {next : α → Steps σ β} {t : Checkpoint σ} {l a c j l' r}
    (hp : p.Runs t.cursor t.journal l (.ok a c j))
    (h : (next a).Runs { t with cursor := c, journal := j } l' r) :
    Steps.Runs (.run p next) t (around t.cursor t.journal l (.ok a c j) ++ l') r
  | run_fail {α β : Type} {p : Plan σ α} {next : α → Steps σ β} {t : Checkpoint σ} {l e j}
    (hp : p.Runs t.cursor t.journal l (Failure.reply j e)) :
    Steps.Runs (.run p next) t (around t.cursor t.journal l (α := α) (e.reply j)) (e.reply t.drop)
  | indentHere {α : Type} {next : Steps σ α} {t : Checkpoint σ} {l r}
    (h : next.Runs t.indentHere l r) : Steps.Runs (.indentHere next) t l r
  | commit {α : Type} {next : Steps σ α} {t : Checkpoint σ} {l r} (h : next.Runs t.commit l r) :
    Steps.Runs (.commit next) t l r
  | rollback {α : Type} {next : Steps σ α} {t : Checkpoint σ} {l r}
    (h : next.Runs t.rollback l r) : Steps.Runs (.rollback next) t l r

end

/-! ## Every plan has a run -/

namespace Plan

/-- The plan has a run at every place, with the reply of its parser. -/
def Runnable (t : Plan σ α) : Prop := ∀ c j, ∃ l, t.Runs c j l (t.parser c j)

/-- The reply of a run may be written in another way. -/
theorem Runs.cast {t : Plan σ α} {c : Cursor} {j : σ} {l : List (Event σ)} {r r' : Reply σ α}
    (h : t.Runs c j l r) (e : r = r') : t.Runs c j l r' := e ▸ h

namespace Runnable

variable {p : Plan σ α} {stop : Plan σ β}

/-- An elementary parser can be run. -/
theorem of_leaf (p : Parser σ α) : (Plan.leaf p).Runnable := fun _ _ => ⟨_, .leaf rfl⟩

/-- What is made at each place can be run, if it can be at every place. -/
theorem delayed {make : Cursor → Plan σ α} (h : ∀ c, (make c).Runnable) :
    (Plan.delayed make).Runnable := by
  intro c j
  obtain ⟨l, hl⟩ := h c c j
  exact ⟨_, .delayed hl⟩

/-- Two plans one after the other can be run. -/
theorem bind {f : α → Plan σ β} (hp : p.Runnable) (hf : ∀ a, (f a).Runnable) :
    (Plan.bind p f).Runnable := by
  intro c j
  obtain ⟨l, hl⟩ := hp c j
  change ∃ l, Plan.Runs _ c j l ((p.parser c j).bind _)
  cases hr : p.parser c j with
  | ok a c' j' =>
    obtain ⟨l', hl'⟩ := hf a c' j'
    exact ⟨_, .bind (hl.cast hr) hl'⟩
  | miss i e j' => exact ⟨_, .bind_fail (e := .miss i e) (hl.cast hr)⟩
  | fatal i x j' => exact ⟨_, .bind_fail (e := .fatal i x) (hl.cast hr)⟩

/-- The answer of a plan that can be run may be mapped. -/
theorem map {f : α → β} (hp : p.Runnable) : (p.map f).Runnable :=
  hp.bind fun _ => .of_leaf _

/-- Two plans of which the first one answers can be run. -/
theorem keepLeft {q : Plan σ β} (hp : p.Runnable) (hq : q.Runnable) : (p.keepLeft q).Runnable :=
  hp.bind fun _ => hq.map

/-- Two plans of which the second one answers can be run. -/
theorem keepRight {q : Plan σ β} (hp : p.Runnable) (hq : q.Runnable) :
    (p.keepRight q).Runnable :=
  hp.bind fun _ => hq

/-- Two plans of which one is the alternative can be run. -/
theorem orElse {q : Plan σ α} (hp : p.Runnable) (hq : q.Runnable) :
    (Plan.orElse p q).Runnable := by
  intro c j
  obtain ⟨l, hl⟩ := hp c j
  obtain ⟨l', hl'⟩ := hq c j
  change ∃ l, Plan.Runs _ c j l (Parser.orElse p.parser q.parser c j)
  rw [Parser.orElse]
  cases hr : p.parser c j with
  | ok a c' j' => exact ⟨_, .orElse_left (hl.cast hr) nofun⟩
  | miss i e j' => exact ⟨_, .orElse_right (hl.cast hr) hl'⟩
  | fatal i x j' => exact ⟨_, .orElse_left (hl.cast hr) nofun⟩

/-- A repetition can be run: every step of it leaves less ahead. -/
theorem many (hp : p.Runnable) (owed : Nat) : (Plan.many p owed).Runnable := by
  intro c
  induction hn : c.remaining using Nat.strongRecOn generalizing owed c with
  | ind n ih =>
    intro j
    subst hn
    obtain ⟨l, hl⟩ := hp c j
    by_cases h : ∃ a c' j', p.parser c j = .ok a c' j' ∧ c'.remaining < c.remaining
    · obtain ⟨a, c', j', hr, hlt⟩ := h
      obtain ⟨l', hl'⟩ := ih _ hlt (owed - 1) c' rfl j'
      exact ⟨_, (Runs.many_next (hl.cast hr) hlt hl').cast (Parser.many_next owed hr hlt).symm⟩
    · have h a c' j' (hr : p.parser c j = .ok a c' j') : ¬c'.remaining < c.remaining :=
        fun hlt => h ⟨a, c', j', hr, hlt⟩
      exact ⟨_, (Runs.many_last hl h).cast (Parser.many_last owed h).symm⟩

/-- A repetition with a stop can be run, for the same reason. -/
theorem manyTill (hp : p.Runnable) (hstop : stop.Runnable) : (Plan.manyTill p stop).Runnable := by
  intro c
  induction hn : c.remaining using Nat.strongRecOn generalizing c with
  | ind n ih =>
    intro j
    subst hn
    obtain ⟨l, hl⟩ := hstop c j
    by_cases hs : ∃ i e j', stop.parser c j = .miss i e j'
    · obtain ⟨i, e, j', hs⟩ := hs
      obtain ⟨l', hl'⟩ := hp c j
      by_cases h : ∃ a c' j', p.parser c j = .ok a c' j' ∧ c'.remaining < c.remaining
      · obtain ⟨a, c', j'', hr, hlt⟩ := h
        obtain ⟨l'', hl''⟩ := ih _ hlt c' rfl j''
        exact ⟨_, (Runs.manyTill_next (hl.cast hs) (hl'.cast hr) hlt hl'').cast
          (Parser.manyTill_next hs hr hlt).symm⟩
      · have h a c' j' (hr : p.parser c j = .ok a c' j') : ¬c'.remaining < c.remaining :=
          fun hlt => h ⟨a, c', j', hr, hlt⟩
        exact ⟨_, (Runs.manyTill_last (hl.cast hs) hl' h).cast (Parser.manyTill_last hs h).symm⟩
    · have h i e j' (hr : stop.parser c j = .miss i e j') : False := hs ⟨i, e, j', hr⟩
      exact ⟨_, (Runs.manyTill_stop hl h).cast (Parser.manyTill_stop h).symm⟩

/-- A plan that may be missing can be run. -/
theorem optional (hp : p.Runnable) : (Plan.optional p).Runnable := by
  intro c j
  obtain ⟨l, hl⟩ := hp c j
  exact ⟨_, .optional hl⟩

/-- The end of a line can be run. -/
theorem eol : (eol : Plan σ Unit).Runnable := .orElse (.of_leaf _) (.of_leaf _)

/-- Blank lines can be run. -/
theorem blankLines : (blankLines : Plan σ Unit).Runnable :=
  .bind (.many (.keepRight (.of_leaf _) (.of_leaf _)) 0) fun _ =>
    .map (.optional (.keepRight (.of_leaf _) (.of_leaf _)))

/-- The end of a line and the blank ones behind it can be run. -/
theorem lineEnd : (lineEnd : Plan σ Unit).Runnable := by
  refine .delayed fun c => ?_
  split
  · exact blankLines
  · exact .keepRight (.of_leaf _) (.keepRight eol blankLines)

/-- An item with its line end can be run. -/
theorem line {item : Plan σ α} (hitem : item.Runnable) : item.line.Runnable :=
  hitem.keepLeft lineEnd

/-- A block can be run: each of its lines leaves less ahead. -/
theorem block {item : Plan σ α} {continues : Plan σ β} (hitem : item.Runnable)
    (hcont : continues.Runnable) (owed : Nat) : (Plan.block item continues owed).Runnable := by
  intro c
  induction hn : c.remaining using Nat.strongRecOn generalizing owed c with
  | ind n ih =>
    intro j
    subst hn
    obtain ⟨l, hl⟩ := hitem.line c j
    have hline : item.line.parser = item.parser <* Parser.lineEnd := parser_line item
    -- The condition is only asked behind a line that does not end the source.
    by_cases hi : ∃ a c' j', item.line.parser c j = .ok a c' j' ∧ c'.atEnd = false
    case neg =>
      have hi a c' j' (hr : item.line.parser c j = .ok a c' j') : c'.atEnd :=
        Bool.of_not_eq_false fun he => hi ⟨a, c', j', hr, he⟩
      refine ⟨_, (Runs.block_last hl hi).cast ?_⟩
      rw [hline] at hi ⊢
      exact (Parser.block_last owed hi).symm
    obtain ⟨a, c', j', hi, he⟩ := hi
    have hi' := hline ▸ hi
    obtain ⟨l', hl'⟩ := hcont (c'.skipWhile Text.isBlank) j'
    have hl := hl.cast hi
    cases hc : continues.parser (c'.skipWhile Text.isBlank) j' with
    | ok b c'' j'' =>
      by_cases hlt : (c'.skipWhile Text.isBlank).remaining < c.remaining
      · obtain ⟨l'', hl''⟩ := ih _ hlt (owed - 1) _ rfl j''
        exact ⟨_, (Runs.block_next hl he (hl'.cast hc) hlt hl'').cast
          (Parser.block_next owed hi' he hc hlt).symm⟩
      · exact ⟨_, (Runs.block_stuck hl he (hl'.cast hc) hlt).cast
          (Parser.block_stuck owed hi' he hc hlt).symm⟩
    | miss i e j'' =>
      exact ⟨_, (Runs.block_miss hl he (hl'.cast hc)).cast
        (Parser.block_miss owed hi' he hc).symm⟩
    | fatal i x j'' =>
      exact ⟨_, (Runs.block_fatal hl he (hl'.cast hc)).cast
        (Parser.block_fatal owed hi' he hc).symm⟩

/-- A chain can be run: each of its links leaves less ahead. -/
theorem chainRest {operand : Plan σ α} {operator : Plan σ (α → α → α)}
    (hoperand : operand.Runnable) (hoperator : operator.Runnable) (acc : α) :
    (Plan.chainRest operand operator acc).Runnable := by
  have hlink acc : (operand.link operator acc).Runnable := hoperator.bind fun _ => hoperand.map
  intro c
  induction hn : c.remaining using Nat.strongRecOn generalizing acc c with
  | ind n ih =>
    intro j
    subst hn
    obtain ⟨l, hl⟩ := hlink acc c j
    cases hs : (operand.link operator acc).parser c j with
    | ok acc' c' j' =>
      by_cases hlt : c'.remaining < c.remaining
      · obtain ⟨l', hl'⟩ := ih _ hlt acc' c' rfl j'
        exact ⟨_, (Runs.chainRest_next (hl.cast hs) hlt hl').cast
          (Parser.chainRest_next hs hlt).symm⟩
      · exact ⟨_, (Runs.chainRest_stuck (hl.cast hs) hlt).cast
          (Parser.chainRest_stuck hs hlt).symm⟩
    | miss i e j' =>
      exact ⟨_, (Runs.chainRest_miss (hl.cast hs)).cast (Parser.chainRest_miss hs).symm⟩
    | fatal i x j' =>
      exact ⟨_, (Runs.chainRest_fatal (hl.cast hs)).cast (Parser.chainRest_fatal hs).symm⟩

/-- What is read twice can be run. -/
theorem reread {p : Plan σ (Option α)} {q : Plan σ α} (hp : p.Runnable) (hq : q.Runnable) :
    (Plan.reread p q).Runnable := by
  intro c j
  obtain ⟨l, hl⟩ := hp c j
  obtain ⟨l', hl'⟩ := hq c j
  change ∃ l, Plan.Runs _ c j l (Parser.reread p.parser q.parser c j)
  rw [Parser.reread]
  cases hr : p.parser c j with
  | ok o c' j' =>
    cases o with
    | none => exact ⟨_, .reread_second (hl.cast hr) hl'⟩
    | some a => exact ⟨_, .reread_first (hl.cast hr) nofun⟩
  | miss i e j' => exact ⟨_, .reread_first (hl.cast hr) nofun⟩
  | fatal i x j' => exact ⟨_, .reread_first (hl.cast hr) nofun⟩

end Runnable

end Plan

mutual

/-- A plan that can be run has a run at every place, with every journal. -/
theorem Plan.exists_runs : {α : Type} → (t : Plan σ α) → t.Runnable
  | _, .leaf p => .of_leaf p
  | _, .delayed make => .delayed fun c => (make c).exists_runs
  | _, .bind p f => p.exists_runs.bind fun a => (f a).exists_runs
  | _, .orElse p q => p.exists_runs.orElse q.exists_runs
  | _, .many p owed => p.exists_runs.many owed
  | _, .manyTill p stop => p.exists_runs.manyTill stop.exists_runs
  | _, .block item continues owed => item.exists_runs.block continues.exists_runs owed
  | _, .optional p => p.exists_runs.optional
  | _, .filter _ _ p => fun c j => (p.exists_runs c j).imp' _ fun _ h => .filter h
  | _, .chainRest operand operator acc => operand.exists_runs.chainRest operator.exists_runs acc
  | _, .lookAhead p => fun c j => (p.exists_runs c j).imp' _ fun _ h => .lookAhead h
  | _, .notFollowedBy p _ => fun c j => (p.exists_runs c j).imp' _ fun _ h => .notFollowedBy h
  | _, .wouldMatch p => fun c j => (p.exists_runs c j).imp' _ fun _ h => .wouldMatch h
  | _, .atOwnIndent p => fun _ j => (p.exists_runs _ j).imp' _ fun _ h => .atOwnIndent h
  | _, .reread p q => p.exists_runs.reread q.exists_runs
  | _, .inSteps s => fun _ _ => (s.exists_runs _).imp fun _ h => .inSteps h

/-- Steps of a transaction have a run from every checkpoint. -/
theorem Steps.exists_runs : {α : Type} → (s : Steps σ α) → ∀ t, ∃ l, s.Runs t l (s.perform t)
  | _, .finish _, _ => ⟨_, .finish⟩
  | _, .settle _, _ => ⟨_, .settle⟩
  | _, .run p next, t => by
    obtain ⟨l, hl⟩ := p.exists_runs t.cursor t.journal
    rw [Steps.perform, Checkpoint.run]
    cases hr : p.parser t.cursor t.journal with
    | ok a c j =>
      obtain ⟨l', hl'⟩ := (next a).exists_runs { t with cursor := c, journal := j }
      exact ⟨_, .run (hl.cast hr) hl'⟩
    | miss i e j => exact ⟨_, .run_fail (e := .miss i e) (hl.cast hr)⟩
    | fatal i x j => exact ⟨_, .run_fail (e := .fatal i x) (hl.cast hr)⟩
  | _, .indentHere next, t => (next.exists_runs t.indentHere).imp fun _ h => .indentHere h
  | _, .commit next, t => (next.exists_runs t.commit).imp fun _ h => .commit h
  | _, .rollback next, t => (next.exists_runs t.rollback).imp fun _ h => .rollback h

end

/-! ## Every run has the reply of its parser -/

/-- A failure is not bound by anything. -/
theorem Failure.reply_bind (e : Failure) (j : σ) (f : α → Cursor → σ → Reply σ β) :
    (e.reply j : Reply σ α).bind f = e.reply j := by
  cases e <;> rfl

mutual

/-- The reply of a run is the one of the parser. -/
theorem Plan.Runs.reply_eq {α : Type} {t : Plan σ α} {c : Cursor} {j : σ} {l : List (Event σ)}
    {r : Reply σ α} (h : t.Runs c j l r) : t.parser c j = r :=
  match h with
  | .leaf h => h
  | .delayed h => h.reply_eq
  | .bind hp hf => by
    rw [Plan.parser, Parser.bind_apply, hp.reply_eq]
    exact hf.reply_eq
  | .bind_fail hp => by
    rw [Plan.parser, Parser.bind_apply, hp.reply_eq]
    exact Failure.reply_bind ..
  | .orElse_left hp h => by
    change Parser.orElse _ _ _ _ = _
    rw [Parser.orElse, hp.reply_eq]
    split
    · exact absurd rfl (h _ _ _)
    · rfl
  | .orElse_right hp hq => by
    change Parser.orElse _ _ _ _ = _
    rw [Parser.orElse, Parser.orElse, hp.reply_eq, hq.reply_eq, replying, replying]
  | .many_next hp h hrest =>
    (Parser.many_next _ hp.reply_eq h).trans (congrArg _ hrest.reply_eq)
  | .many_last hp h => by
    have hr := hp.reply_eq
    subst hr
    exact Parser.many_last _ h
  | .manyTill_stop hs h => by
    have hr := hs.reply_eq
    subst hr
    exact Parser.manyTill_stop h
  | .manyTill_next hs hp h hrest =>
    (Parser.manyTill_next hs.reply_eq hp.reply_eq h).trans (congrArg _ hrest.reply_eq)
  | .manyTill_last hs hp h => by
    have hr := hp.reply_eq
    subst hr
    exact Parser.manyTill_last hs.reply_eq h
  | .block_last hi h => by
    have hr := hi.reply_eq
    subst hr
    rw [Plan.parser_line] at h ⊢
    exact Parser.block_last _ h
  | .block_next hi he hc h hrest =>
    (Parser.block_next _ (Plan.parser_line _ ▸ hi.reply_eq) he hc.reply_eq h).trans
      (congrArg _ hrest.reply_eq)
  | .block_stuck hi he hc h =>
    Parser.block_stuck _ (Plan.parser_line _ ▸ hi.reply_eq) he hc.reply_eq h
  | .block_miss hi he hc =>
    Parser.block_miss _ (Plan.parser_line _ ▸ hi.reply_eq) he hc.reply_eq
  | .block_fatal hi he hc =>
    Parser.block_fatal _ (Plan.parser_line _ ▸ hi.reply_eq) he hc.reply_eq
  | .optional hp => by
    rw [Plan.parser, Parser.optional, Parser.optional, hp.reply_eq, replying]
  | .filter hp => by
    rw [Plan.parser, Parser.filter, Parser.filter, hp.reply_eq, replying]
  | .chainRest_next hs h hrest =>
    (Parser.chainRest_next hs.reply_eq h).trans hrest.reply_eq
  | .chainRest_stuck hs h => Parser.chainRest_stuck hs.reply_eq h
  | .chainRest_miss hs => Parser.chainRest_miss hs.reply_eq
  | .chainRest_fatal hs => Parser.chainRest_fatal hs.reply_eq
  | .lookAhead hp => by
    rw [Plan.parser, Parser.lookAhead, Parser.lookAhead, hp.reply_eq, replying]
  | .notFollowedBy hp => by
    rw [Plan.parser, Parser.notFollowedBy, Parser.notFollowedBy, hp.reply_eq, replying]
  | .wouldMatch hp => by
    rw [Plan.parser, Parser.wouldMatch, Parser.wouldMatch, hp.reply_eq, replying]
  | .atOwnIndent hp => by
    rw [Plan.parser, Parser.atOwnIndent, Parser.atOwnIndent, hp.reply_eq, replying]
  | .reread_first hp h => by
    have hr := hp.reply_eq
    subst hr
    rfl
  | .reread_second hp hq => by
    rw [Plan.parser, Parser.reread, hp.reply_eq]
    exact hq.reply_eq
  | .inSteps h => h.reply_eq

/-- The reply of a run of steps is the one of performing them. -/
theorem Steps.Runs.reply_eq {α : Type} {s : Steps σ α} {t : Checkpoint σ} {l : List (Event σ)}
    {r : Reply σ α} (h : s.Runs t l r) : s.perform t = r :=
  match h with
  | .finish => rfl
  | .settle => rfl
  | .run hp h => by
    rw [Steps.perform, Checkpoint.run, hp.reply_eq]
    exact h.reply_eq
  | .run_fail hp => by
    rw [Steps.perform, Checkpoint.run, hp.reply_eq]
    cases ‹Failure› <;> rfl
  | .indentHere h => h.reply_eq
  | .commit h => h.reply_eq
  | .rollback h => h.reply_eq

end

end Dialogue
