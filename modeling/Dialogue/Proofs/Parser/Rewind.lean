import Dialogue.Proofs.Parser.Writer

/-!
# Rewinding

The combinators go back to the journal from before a part as a value. If a journal is a list of
entries that is changed in place, there is no such value: what is known of before is only how
many entries there were, a *mark*, and going back is forgetting all entries after the mark.
`Plan.rewinding` is the parser of a plan that goes back in this way, on each of the ways out of a
combinator for itself.

Where the leaves of a plan write, this is the same parser (`Plan.rewinding_eq`): whatever has been
run in between, the entries up to a mark are still those from before.
-/

namespace Dialogue

variable {ε α β : Type}

/-! ## Combinators that rewind -/

namespace Rewinding

/-- Tries both in turn, rewinding where one misses. -/
def orElse (p q : Parser (List ε) α) : Parser (List ε) α := fun c j =>
  match p c j with
  | .miss _ e j₁ =>
    match q c (j₁.take j.length) with
    | .miss _ e' j₂ => .miss c.index (Failure.union e e') (j₂.take j.length)
    | reply => reply
  | reply => reply

/-- Runs `p` as long as it applies, rewinding where it misses. -/
def many (p : Parser (List ε) α) (owed : Nat) : Parser (List ε) (List α) := fun c j =>
  match p c j with
  | .ok a c' j' =>
    if _h : c'.remaining < c.remaining then (many p (owed - 1) c' j').map (a :: ·)
    else .ok [a] c' j'
  | .miss i e j' =>
    if owed = 0 then .ok [] c (j'.take j.length)
    else .miss i [Failure.owing owed e] (j'.take j.length)
  | .fatal i r j' => .fatal i r j'
termination_by c => c.remaining

/-- Runs `p` until `stop` applies, rewinding behind each look at `stop`, and where `p` misses or
    takes nothing. -/
def manyTill (p : Parser (List ε) α) (stop : Parser (List ε) β) : Parser (List ε) (List α) :=
  fun c j =>
  match stop c j with
  | .ok _ _ j₁ => .ok [] c (j₁.take j.length)
  | .fatal i r j₁ => .fatal i r j₁
  | .miss i e j₁ =>
    match p c (j₁.take j.length) with
    | .ok a c' j₂ =>
      if _h : c'.remaining < c.remaining then (manyTill p stop c' j₂).map (a :: ·)
      else .miss i e (j₂.take j.length)
    | .miss i' e' j₂ =>
      if c.atEnd then .miss i e (j₂.take j.length) else .miss i' e' (j₂.take j.length)
    | .fatal i r j₂ => .fatal i r j₂
termination_by c => c.remaining

/-- Items on lines of their own, rewinding where the block does not go on. -/
def block (item : Parser (List ε) α) (continues : Parser (List ε) β) (owed : Nat) :
    Parser (List ε) (List α) := fun c j =>
  match (item <* Parser.lineEnd) c j with
  | .miss i e j' => .miss i e j'
  | .fatal i r j' => .fatal i r j'
  | .ok a c' j' =>
    if c'.atEnd then .ok [a] c' j'
    else
      let next := c'.skipWhile Text.isBlank
      match continues next j' with
      | .ok _ _ j₁ =>
        if _h : next.remaining < c.remaining then
          (block item continues (owed - 1) next j₁).map (a :: ·)
        else .fatal next.index .endless j₁
      | .miss i e j₁ =>
        if owed ≤ 1 then .ok [a] c' (j₁.take j'.length)
        else .miss i [Failure.owing (owed - 1) e] (j₁.take j'.length)
      | .fatal i r j₁ => .fatal i r j₁
termination_by c => c.remaining

/-- Runs `p`, rewinding where it misses. -/
def optional (p : Parser (List ε) α) : Parser (List ε) (Option α) := fun c j =>
  match p c j with
  | .ok a c' j' => .ok (some a) c' j'
  | .miss _ _ j' => .ok none c (j'.take j.length)
  | .fatal i r j' => .fatal i r j'

/-- Runs `p`, rewinding where its value is refused. -/
def filter (accepts : α → Bool) (what : String) (p : Parser (List ε) α) : Parser (List ε) α :=
  fun c j =>
  match p c j with
  | .ok a c' j' => if accepts a then .ok a c' j' else .miss c.index [what] (j'.take j.length)
  | reply => reply

/-- Folds further operands, rewinding where an operator or its operand misses. -/
def chainRest (operand : Parser (List ε) α) (operator : Parser (List ε) (α → α → α)) (acc : α) :
    Parser (List ε) α := fun c j =>
  match (do let f ← operator; let a ← operand; pure (f acc a) : Parser (List ε) α) c j with
  | .ok acc' c' j' =>
    if _h : c'.remaining < c.remaining then chainRest operand operator acc' c' j'
    else .fatal c.index .endless j'
  | .miss _ _ j' => .ok acc c (j'.take j.length)
  | .fatal i r j' => .fatal i r j'
termination_by c => c.remaining

/-- Checks that `p` applies, and rewinds. -/
def lookAhead (p : Parser (List ε) α) : Parser (List ε) Unit := fun c j =>
  match p c j with
  | .ok _ _ j' => .ok () c (j'.take j.length)
  | .miss _ e j' => .miss c.index e (j'.take j.length)
  | .fatal i r j' => .fatal i r (j'.take j.length)

/-- Checks that `p` does not apply, and rewinds. -/
def notFollowedBy (p : Parser (List ε) α) (what : String) : Parser (List ε) Unit := fun c j =>
  match p c j with
  | .ok _ _ j' => .miss c.index [what] (j'.take j.length)
  | .miss _ _ j' => .ok () c (j'.take j.length)
  | .fatal i r j' => .fatal i r (j'.take j.length)

/-- Tells whether `p` applies, and rewinds. -/
def wouldMatch (p : Parser (List ε) α) : Parser (List ε) Bool := fun c j =>
  match p c j with
  | .ok _ _ j' => .ok true c (j'.take j.length)
  | .miss _ _ j' => .ok false c (j'.take j.length)
  | .fatal i r j' => .fatal i r (j'.take j.length)

/-- The value that `p` answers, or else what `q` reads after rewinding. -/
def reread (p : Parser (List ε) (Option α)) (q : Parser (List ε) α) : Parser (List ε) α :=
  fun c j =>
  match p c j with
  | .ok (some a) c' j' => .ok a c' j'
  | .ok none _ j' => q c (j'.take j.length)
  | .miss i e j' => .miss i e j'
  | .fatal i r j' => .fatal i r j'

end Rewinding

namespace Checkpoint

/-- The journal without what was added after the last save. -/
def rewound (t : Checkpoint (List ε)) : List ε := t.journal.take t.savedJournal.length

end Checkpoint

mutual

/-- The parser of a plan that goes back by rewinding its journal to a mark. -/
def Plan.rewinding : {α : Type} → Plan (List ε) α → Parser (List ε) α
  | _, .leaf p => p
  | _, .delayed make => fun c j => (make c).rewinding c j
  | _, .bind p f => p.rewinding >>= fun a => (f a).rewinding
  | _, .orElse p q => Rewinding.orElse p.rewinding q.rewinding
  | _, .many p owed => Rewinding.many p.rewinding owed
  | _, .manyTill p stop => Rewinding.manyTill p.rewinding stop.rewinding
  | _, .block item continues owed => Rewinding.block item.rewinding continues.rewinding owed
  | _, .optional p => Rewinding.optional p.rewinding
  | _, .filter accepts what p => Rewinding.filter accepts what p.rewinding
  | _, .chainRest operand operator acc =>
    Rewinding.chainRest operand.rewinding operator.rewinding acc
  | _, .lookAhead p => Rewinding.lookAhead p.rewinding
  | _, .notFollowedBy p what => Rewinding.notFollowedBy p.rewinding what
  | _, .wouldMatch p => Rewinding.wouldMatch p.rewinding
  | _, .atOwnIndent p => p.rewinding.atOwnIndent
  | _, .reread p q => Rewinding.reread p.rewinding q.rewinding
  | _, .inSteps s => fun c j => s.rewinding (.start c j)

/-- Takes steps on a checkpoint of which only the number of entries counts that it has saved. -/
def Steps.rewinding :
    {α : Type} → Steps (List ε) α → Checkpoint (List ε) → Reply (List ε) α
  | _, .finish a, t => .ok a t.finish.1 t.finish.2
  | _, .settle a, t => .ok a t.settle.1 t.rewound
  | _, .run p next, t =>
    match t.run p.rewinding with
    | (.ok a, t') => (next a).rewinding t'
    | (.error f, t') => f.reply t'.rewound
  | _, .indentHere next, t => next.rewinding t.indentHere
  | _, .commit next, t => next.rewinding t.commit
  | _, .rollback next, t => next.rewinding { t.rollback with journal := t.rewound }

end

/-! ## Rewinding restores the journal -/

namespace Rewinding

variable {p : Parser (List ε) α} {c : Cursor} {j : List ε}

/-- Whatever was run, the entries up to the mark are those from before. -/
theorem take_journal (hp : p.Writes) (c : Cursor) (j : List ε) :
    (p c j).journal.take j.length = j := by
  rw [hp c j, Reply.journal_onto, List.take_left]

/-- An alternative of writers may go back by a mark. -/
theorem orElse_eq {q : Parser (List ε) α} (hp : p.Writes) (hq : q.Writes) :
    orElse p q = p.orElse q := by
  funext c j
  have hp := take_journal hp c j
  have hq := take_journal hq c j
  rw [orElse, Parser.orElse]
  cases hr : p c j with
  | ok a c' j₁ => rfl
  | fatal i x j₁ => rfl
  | miss i e j₁ =>
    rw [hr] at hp
    change j₁.take j.length = j at hp
    dsimp only
    rw [hp]
    cases hr' : q c j with
    | ok a c' j₂ => rfl
    | fatal i x j₂ => rfl
    | miss i' e' j₂ =>
      rw [hr'] at hq
      change j₂.take j.length = j at hq
      dsimp only
      rw [hq]

/-- A repetition of a writer may go back by a mark. -/
theorem many_eq (hp : p.Writes) (owed : Nat) : many p owed = p.many owed := by
  funext c
  induction hn : c.remaining using Nat.strongRecOn generalizing owed c with
  | ind n ih =>
    funext j
    subst hn
    have hp := take_journal hp c j
    rw [many, Parser.many]
    cases hr : p c j with
    | ok a c' j' =>
      dsimp only
      split
      · rename_i hlt
        rw [ih _ hlt (owed - 1) c' rfl]
      · rfl
    | miss i e j' =>
      rw [hr] at hp
      change j'.take j.length = j at hp
      dsimp only
      rw [hp]
    | fatal i x j' => rfl

/-- A repetition with a stop may go back by a mark. -/
theorem manyTill_eq {stop : Parser (List ε) β} (hp : p.Writes) (hs : stop.Writes) :
    manyTill p stop = p.manyTill stop := by
  funext c
  induction hn : c.remaining using Nat.strongRecOn generalizing c with
  | ind n ih =>
    funext j
    subst hn
    have hp := take_journal hp c j
    have hs := take_journal hs c j
    rw [manyTill, Parser.manyTill]
    cases hr : stop c j with
    | ok b c' j₁ => rw [hr] at hs; exact congrArg (Reply.ok [] c) hs
    | fatal i x j₁ => rfl
    | miss i e j₁ =>
      rw [hr] at hs
      -- A missing parser has only added to the journal, so cutting it at the mark takes it back.
      change j₁.take j.length = j at hs
      dsimp only
      rw [hs]
      cases hr' : p c j with
      | ok a c' j₂ =>
        rw [hr'] at hp
        dsimp only
        split
        · rename_i hlt
          rw [ih _ hlt c' rfl]
        · exact congrArg (Reply.miss i e) hp
      | miss i' e' j₂ =>
        rw [hr'] at hp
        change j₂.take j.length = j at hp
        dsimp only
        rw [hp]
      | fatal i x j₂ => rfl

/-- A block may go back by a mark where it is not continued. -/
theorem block_eq {continues : Parser (List ε) β} (hc : continues.Writes) (owed : Nat) :
    block p continues owed = p.block continues owed := by
  funext c
  induction hn : c.remaining using Nat.strongRecOn generalizing owed c with
  | ind n ih =>
    funext j
    subst hn
    rw [block, Parser.block]
    cases (p <* Parser.lineEnd) c j with
    | miss i e j' => rfl
    | fatal i x j' => rfl
    | ok a c' j' =>
      dsimp only
      split
      · rfl
      have hc := take_journal hc (c'.skipWhile Text.isBlank) j'
      cases hr : continues (c'.skipWhile Text.isBlank) j' with
      | ok b c'' j₁ =>
        dsimp only
        split
        · rename_i hlt
          rw [ih _ hlt (owed - 1) _ rfl]
        · rfl
      | miss i e j₁ =>
        rw [hr] at hc
        change j₁.take j'.length = j' at hc
        dsimp only
        rw [hc]
      | fatal i x j₁ => rfl

/-- What can be missing may go back by a mark. -/
theorem optional_eq (hp : p.Writes) : optional p = p.optional := by
  funext c j
  have hp := take_journal hp c j
  rw [optional, Parser.optional]
  cases hr : p c j with
  | ok a c' j' => rfl
  | miss i e j' => rw [hr] at hp; exact congrArg (Reply.ok none c) hp
  | fatal i x j' => rfl

/-- What is checked may go back by a mark. -/
theorem filter_eq (accepts : α → Bool) (what : String) (hp : p.Writes) :
    filter accepts what p = p.filter accepts what := by
  funext c j
  have hp := take_journal hp c j
  rw [filter, Parser.filter]
  cases hr : p c j with
  | ok a c' j' =>
    rw [hr] at hp
    change j'.take j.length = j at hp
    dsimp only
    rw [hp]
  | miss i e j' => rfl
  | fatal i x j' => rfl

/-- A chain may go back by a mark. -/
theorem chainRest_eq {operand : Parser (List ε) α} {operator : Parser (List ε) (α → α → α)}
    (hoperand : operand.Writes) (hoperator : operator.Writes) (acc : α) :
    chainRest operand operator acc = Parser.chainRest operand operator acc := by
  funext c
  induction hn : c.remaining using Nat.strongRecOn generalizing acc c with
  | ind n ih =>
    funext j
    subst hn
    have hlink : (do let f ← operator; let a ← operand; pure (f acc a)).Writes :=
      hoperator.bind fun _ => hoperand.bind fun _ => .pure _
    have hlink := take_journal hlink c j
    rw [chainRest, Parser.chainRest]
    cases hr : (do let f ← operator; let a ← operand; pure (f acc a) : Parser _ _) c j with
    | ok acc' c' j' =>
      dsimp only
      split
      · rename_i hlt
        rw [ih _ hlt acc' c' rfl]
      · rfl
    | miss i e j' => rw [hr] at hlink; exact congrArg (Reply.ok acc c) hlink
    | fatal i x j' => rfl

/-- A look ahead may go back by a mark. -/
theorem lookAhead_eq (hp : p.Writes) : lookAhead p = p.lookAhead := by
  funext c j
  have hp := take_journal hp c j
  rw [lookAhead, Parser.lookAhead]
  cases hr : p c j with
  | ok a c' j' => rw [hr] at hp; exact congrArg (Reply.ok () c) hp
  | miss i e j' => rw [hr] at hp; exact congrArg (Reply.miss c.index e) hp
  | fatal i x j' => rw [hr] at hp; exact congrArg (Reply.fatal i x) hp

/-- A look for what must not be there may go back by a mark. -/
theorem notFollowedBy_eq (hp : p.Writes) (what : String) :
    notFollowedBy p what = p.notFollowedBy what := by
  funext c j
  have hp := take_journal hp c j
  rw [notFollowedBy, Parser.notFollowedBy]
  cases hr : p c j with
  | ok a c' j' => rw [hr] at hp; exact congrArg (Reply.miss c.index [what]) hp
  | miss i e j' => rw [hr] at hp; exact congrArg (Reply.ok () c) hp
  | fatal i x j' => rw [hr] at hp; exact congrArg (Reply.fatal i x) hp

/-- A question for what is ahead may go back by a mark. -/
theorem wouldMatch_eq (hp : p.Writes) : wouldMatch p = p.wouldMatch := by
  funext c j
  have hp := take_journal hp c j
  rw [wouldMatch, Parser.wouldMatch]
  cases hr : p c j with
  | ok a c' j' => rw [hr] at hp; exact congrArg (Reply.ok true c) hp
  | miss i e j' => rw [hr] at hp; exact congrArg (Reply.ok false c) hp
  | fatal i x j' => rw [hr] at hp; exact congrArg (Reply.fatal i x) hp

/-- What is read twice may go back by a mark. -/
theorem reread_eq {p : Parser (List ε) (Option α)} (hp : p.Writes) (q : Parser (List ε) α) :
    reread p q = p.reread q := by
  funext c j
  have hp := take_journal hp c j
  rw [reread, Parser.reread]
  cases hr : p c j with
  | ok o c' j' =>
    cases o with
    | some a => rfl
    | none =>
      rw [hr] at hp
      exact congrArg (q c) hp
  | miss i e j' => rfl
  | fatal i x j' => rfl

end Rewinding

/-! ## Plans -/

open Rewinding

mutual

/-- Where the leaves of a plan write, rewinding to a mark is as good as keeping the journal. -/
theorem Plan.rewinding_eq : {α : Type} → (t : Plan (List ε) α) → t.Leaves Parser.Writes →
    t.rewinding = t.parser
  | _, .leaf _, _ => rfl
  | _, .delayed make, h => by
    funext c j
    exact congrFun (congrFun ((make c).rewinding_eq (h c)) c) j
  | _, .bind p f, h => by
    rw [Plan.rewinding, Plan.parser, p.rewinding_eq h.1]
    exact congrArg (p.parser >>= ·) (funext fun a => (f a).rewinding_eq (h.2 a))
  | _, .orElse p q, h => by
    rw [Plan.rewinding, p.rewinding_eq h.1, q.rewinding_eq h.2]
    exact orElse_eq (p.writes h.1) (q.writes h.2)
  | _, .many p owed, h => by
    rw [Plan.rewinding, p.rewinding_eq h]
    exact many_eq (p.writes h) owed
  | _, .manyTill p stop, h => by
    rw [Plan.rewinding, p.rewinding_eq h.1, stop.rewinding_eq h.2]
    exact manyTill_eq (p.writes h.1) (stop.writes h.2)
  | _, .block item continues owed, h => by
    rw [Plan.rewinding, item.rewinding_eq h.1, continues.rewinding_eq h.2]
    exact block_eq (continues.writes h.2) owed
  | _, .optional p, h => by
    rw [Plan.rewinding, p.rewinding_eq h]
    exact optional_eq (p.writes h)
  | _, .filter accepts what p, h => by
    rw [Plan.rewinding, p.rewinding_eq h]
    exact filter_eq accepts what (p.writes h)
  | _, .chainRest operand operator acc, h => by
    rw [Plan.rewinding, operand.rewinding_eq h.1, operator.rewinding_eq h.2]
    exact chainRest_eq (operand.writes h.1) (operator.writes h.2) acc
  | _, .lookAhead p, h => by
    rw [Plan.rewinding, p.rewinding_eq h]
    exact lookAhead_eq (p.writes h)
  | _, .notFollowedBy p what, h => by
    rw [Plan.rewinding, p.rewinding_eq h]
    exact notFollowedBy_eq (p.writes h) what
  | _, .wouldMatch p, h => by
    rw [Plan.rewinding, p.rewinding_eq h]
    exact wouldMatch_eq (p.writes h)
  | _, .atOwnIndent p, h => by
    rw [Plan.rewinding, p.rewinding_eq h, Plan.parser]
  | _, .reread p q, h => by
    rw [Plan.rewinding, p.rewinding_eq h.1, q.rewinding_eq h.2]
    exact reread_eq (p.writes h.1) _
  | _, .inSteps s, h => by
    funext c j
    exact s.rewinding_eq h (.start c j) (List.prefix_refl j)

/-- The steps of a transaction may go back by marks. -/
theorem Steps.rewinding_eq : {α : Type} → (s : Steps (List ε) α) → s.Leaves Parser.Writes →
    ∀ t : Checkpoint (List ε), t.savedJournal <+: t.journal → s.rewinding t = s.perform t
  | _, .finish _, _, _, _ => rfl
  | _, .settle a, _, t, ht => congrArg (Reply.ok a t.settle.1) (List.prefix_iff_eq_take.1 ht).symm
  -- What is saved stays the front part of the journal, so it is found again by its length.
  | _, .run p next, h, t, ht => by
    have hext : t.journal <+: (p.parser t.cursor t.journal).journal := by
      rw [p.writes h.1, Reply.journal_onto]
      exact List.prefix_append _ _
    rw [Steps.rewinding, Steps.perform, p.rewinding_eq h.1, Checkpoint.run]
    cases hr : p.parser t.cursor t.journal with
    | ok a c j =>
      rw [hr] at hext
      exact (next a).rewinding_eq (h.2 a) _ (ht.trans hext)
    | miss i e j =>
      rw [hr] at hext
      exact congrArg (Reply.miss i e) (List.prefix_iff_eq_take.1 (ht.trans hext)).symm
    | fatal i x j =>
      rw [hr] at hext
      exact congrArg (Reply.fatal i x) (List.prefix_iff_eq_take.1 (ht.trans hext)).symm
  | _, .indentHere next, h, t, ht => next.rewinding_eq h t.indentHere ht
  | _, .commit next, h, t, _ => next.rewinding_eq h t.commit (List.prefix_refl _)
  | _, .rollback next, h, t, ht => by
    have hback : t.rewound = t.savedJournal := (List.prefix_iff_eq_take.1 ht).symm
    rw [Steps.rewinding, hback]
    exact next.rewinding_eq h t.rollback (List.prefix_refl _)

end

end Dialogue
