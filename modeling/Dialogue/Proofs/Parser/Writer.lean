import Dialogue.Proofs.Parser.Run

/-!
# Writers

A parser that *writes* keeps a list of entries as its journal, and only ever adds to its end:
what it answers, and what it adds, does not depend on what is there already (`Writes`).

A plan whose leaves write does so as a whole (`Plan.writes`): each combinator either goes on
with the journal as a part left it, or with the one from before the part.
-/

namespace Dialogue

variable {ε α β : Type}

/-- The reply, with its entries added to a journal. -/
def Reply.onto (j : List ε) : Reply (List ε) α → Reply (List ε) α
  | ok a c w => ok a c (j ++ w)
  | miss i e w => miss i e (j ++ w)
  | fatal i x w => fatal i x (j ++ w)

namespace Reply

/-- What an answer has added is put behind what was there. -/
@[simp] theorem onto_ok (j : List ε) (a : α) (c : Cursor) (w : List ε) :
    (ok a c w).onto j = ok a c (j ++ w) := rfl

/-- What a failure has left is put behind what was there. -/
@[simp] theorem onto_miss (j : List ε) (i : Nat) (e : List String) (w : List ε) :
    (miss i e w : Reply (List ε) α).onto j = miss i e (j ++ w) := rfl

/-- What a fatal failure has left is put behind what was there. -/
@[simp] theorem onto_fatal (j : List ε) (i : Nat) (x : Reason) (w : List ε) :
    (fatal i x w : Reply (List ε) α).onto j = fatal i x (j ++ w) := rfl

/-- Entries put before entries are put before all of them. -/
theorem onto_onto (j w : List ε) (r : Reply (List ε) α) :
    (r.onto w).onto j = r.onto (j ++ w) := by
  cases r <;> simp only [onto, List.append_assoc]

/-- Mapping the answer leaves the journal alone. -/
theorem map_onto (f : α → β) (j : List ε) (r : Reply (List ε) α) :
    (r.onto j).map f = (r.map f).onto j := by
  cases r <;> rfl

/-- Entries from before do not change the outcome. -/
theorem outcome_onto (j : List ε) (r : Reply (List ε) α) : (r.onto j).outcome = r.outcome := by
  cases r <;> rfl

/-- The journal is what was there, and what was added. -/
theorem journal_onto (j : List ε) (r : Reply (List ε) α) :
    (r.onto j).journal = j ++ r.journal := by
  cases r <;> rfl

end Reply

namespace Parser

/-- The parser adds to its journal, whatever is there already. -/
def Writes (p : Parser (List ε) α) : Prop := ∀ c j, p c j = (p c []).onto j

namespace Writes

variable {p : Parser (List ε) α} {q : Parser (List ε) β}

/-- With some entries before the others. -/
theorem append (h : Writes p) (c : Cursor) (j w : List ε) : p c (j ++ w) = (p c w).onto j := by
  rw [h c w, Reply.onto_onto]
  exact h c _

/-- An answer with some journal is the one with an empty journal, and what it adds is the same. -/
theorem exists_entries {p : Parser (List ε) α} (h : Writes p) {c c' : Cursor}
    {j w : List ε} {a : α} (hr : p c j = .ok a c' w) :
    ∃ w', p c [] = .ok a c' w' ∧ w = j ++ w' := by
  rw [h] at hr
  cases hp : p c [] <;> rw [hp] at hr <;> cases hr
  exact ⟨_, rfl, rfl⟩

/-- An answer is the same whatever has been written before. -/
theorem ok_after {p : Parser (List ε) α} (h : Writes p) {c c' : Cursor} {a : α}
    {w : List ε} (hr : p c [] = .ok a c' w) (j : List ε) : p c j = .ok a c' (j ++ w) := by
  rw [h, hr]
  rfl

/-- A failure is the same whatever has been written before. -/
theorem miss_after {p : Parser (List ε) α} (h : Writes p) {c : Cursor} {i : Nat}
    {e : List String} {w : List ε} (hr : p c [] = .miss i e w) (j : List ε) :
    p c j = .miss i e (j ++ w) := by
  rw [h, hr]
  rfl

/-- Two writers one after the other write. -/
theorem bind {f : α → Parser (List ε) β} (hp : Writes p) (hf : ∀ a, Writes (f a)) :
    Writes (p >>= f) := by
  intro c j
  rw [bind_apply, bind_apply, hp c j]
  cases p c [] with
  | ok a c' w => exact (hf a).append c' j w
  | miss i e w => rfl
  | fatal i x w => rfl

/-- An answer that reads nothing writes nothing. -/
theorem pure (a : α) : Writes (Pure.pure a : Parser (List ε) α) :=
  fun c j => congrArg (Reply.ok a c) (List.append_nil j).symm

/-- An alternative of writers writes: the second one starts from the journal before the first. -/
theorem orElse {q : Parser (List ε) α} (hp : Writes p) (hq : Writes q) : Writes (p <|> q) := by
  intro c j
  change Parser.orElse p q c j = (Parser.orElse p q c []).onto j
  rw [Parser.orElse, Parser.orElse, hp c j, hq c j]
  cases p c [] with
  | ok a c' w => rfl
  | fatal i x w => rfl
  | miss i e w =>
    cases q c [] with
    | ok a c' w => rfl
    | fatal i x w => rfl
    | miss i' e' w => simp

/-- A repetition of a writer writes. -/
theorem many (hp : Writes p) (owed : Nat) : Writes (p.many owed) := by
  intro c
  induction hn : c.remaining using Nat.strongRecOn generalizing owed c with
  | ind n ih =>
    intro j
    subst hn
    rw [Parser.many, Parser.many, hp c j]
    cases p c [] with
    | ok a c' w =>
      dsimp only [Reply.onto_ok]
      split
      · rename_i hlt
        have ih := ih _ hlt (owed - 1) c' rfl
        rw [ih, ih w, ← Reply.onto_onto, ← Reply.map_onto]
      · rfl
    | miss i e w => dsimp only [Reply.onto_miss]; split <;> simp
    | fatal i x w => rfl

/-- A repetition of a writer with a stop writes. -/
theorem manyTill {stop : Parser (List ε) β} (hp : Writes p) (hs : Writes stop) :
    Writes (p.manyTill stop) := by
  intro c
  induction hn : c.remaining using Nat.strongRecOn generalizing c with
  | ind n ih =>
    intro j
    subst hn
    rw [Parser.manyTill, Parser.manyTill, hp c j, hs c j]
    cases stop c [] with
    | ok b c' w => simp
    | fatal i x w => rfl
    | miss i e w =>
      cases p c [] with
      | ok a c' w =>
        dsimp only [Reply.onto_ok, Reply.onto_miss]
        split
        · rename_i hlt
          have ih := ih _ hlt c' rfl
          rw [ih, ih w, ← Reply.onto_onto, ← Reply.map_onto]
        · simp
      | miss i e w => dsimp only [Reply.onto_miss]; split <;> simp
      | fatal i x w => rfl

/-- A writer that may be missing writes. -/
theorem optional (hp : Writes p) : Writes p.optional := by
  intro c j
  rw [Parser.optional, Parser.optional, hp c j]
  cases p c [] <;> simp

/-- Two writers of which the first one answers write. -/
theorem seqLeft (hp : Writes p) (hq : Writes q) : Writes (p <* q) :=
  hp.bind fun _ => hq.bind fun _ => .pure _

/-- Two writers of which the second one answers write. -/
theorem seqRight (hp : Writes p) (hq : Writes q) : Writes (p *> q) := hp.bind fun _ => hq

/-- Blanks are read without writing. -/
theorem blanks : Writes (Parser.blanks : Parser (List ε) _) :=
  fun _ _ => congrArg (Reply.ok _ _) (List.append_nil _).symm

/-- A line break is read without writing. -/
theorem newline : Writes (Parser.newline : Parser (List ε) Unit) := by
  intro c j
  unfold Parser.newline
  split
  · simp
  · split <;> simp
  · simp

/-- The end of the source is read without writing. -/
theorem eof : Writes (Parser.eof : Parser (List ε) Unit) := by
  intro c j
  unfold Parser.eof
  split <;> simp

/-- Blank lines are read without writing. -/
theorem blankLines : Writes (Parser.blankLines : Parser (List ε) Unit) :=
  ((blanks.seqRight newline).many 0).bind fun _ =>
    (blanks.seqRight eof).optional.bind fun _ => .pure _

/-- The end of a line is read without writing. -/
theorem lineEnd : Writes (Parser.lineEnd : Parser (List ε) Unit) := by
  intro c j
  unfold Parser.lineEnd
  split
  · exact blankLines c j
  · exact (blanks.seqRight ((newline.orElse eof).seqRight blankLines)) c j

/-- A block of writers writes. -/
theorem block {item : Parser (List ε) α} {continues : Parser (List ε) β} (hi : Writes item)
    (hc : Writes continues) (owed : Nat) : Writes (Parser.block item continues owed) := by
  intro c
  induction hn : c.remaining using Nat.strongRecOn generalizing owed c with
  | ind n ih =>
    intro j
    subst hn
    rw [Parser.block, Parser.block, (hi.seqLeft lineEnd) c j]
    cases (item <* Parser.lineEnd) c [] with
    | miss i e w => rfl
    | fatal i x w => rfl
    | ok a c' w =>
      dsimp only [Reply.onto_ok]
      split
      · rfl
      rw [hc.append _ j w]
      cases continues (c'.skipWhile Text.isBlank) w with
      | fatal i x w' => rfl
      | miss i e w' => dsimp only [Reply.onto_miss]; split <;> rfl
      | ok b c'' w' =>
        dsimp only [Reply.onto_ok]
        split
        · rename_i hlt
          have ih := ih _ hlt (owed - 1) _ rfl
          rw [ih, ih w', ← Reply.onto_onto, ← Reply.map_onto]
        · rfl

/-- A writer whose answer is checked writes. -/
theorem filter {accepts : α → Bool} {what : String} (hp : Writes p) :
    Writes (p.filter accepts what) := by
  intro c j
  rw [Parser.filter, Parser.filter, hp c j]
  cases p c [] with
  | ok a c' w => dsimp only [Reply.onto_ok]; split <;> simp
  | miss i e w => rfl
  | fatal i x w => rfl

/-- A chain of writers writes. -/
theorem chainRest {operand : Parser (List ε) α} {operator : Parser (List ε) (α → α → α)}
    (hoperand : Writes operand) (hoperator : Writes operator) (acc : α) :
    Writes (Parser.chainRest operand operator acc) := by
  intro c
  induction hn : c.remaining using Nat.strongRecOn generalizing acc c with
  | ind n ih =>
    intro j
    subst hn
    have hlink : Writes (do let f ← operator; let a ← operand; Pure.pure (f acc a)) :=
      hoperator.bind fun _ => hoperand.bind fun _ => .pure _
    rw [Parser.chainRest, Parser.chainRest, hlink c j]
    cases (do let f ← operator; let a ← operand; Pure.pure (f acc a) : Parser _ _) c [] with
    | miss i e w => simp
    | fatal i x w => rfl
    | ok acc' c' w =>
      dsimp only [Reply.onto_ok]
      split
      · rename_i hlt
        have ih := ih _ hlt acc' c' rfl
        rw [ih, ih w, Reply.onto_onto]
      · rfl

/-- A look ahead with a writer writes. -/
theorem lookAhead (hp : Writes p) : Writes p.lookAhead := by
  intro c j
  rw [Parser.lookAhead, Parser.lookAhead, hp c j]
  cases p c [] <;> simp

/-- A look for what must not be there with a writer writes. -/
theorem notFollowedBy {what : String} (hp : Writes p) : Writes (p.notFollowedBy what) := by
  intro c j
  rw [Parser.notFollowedBy, Parser.notFollowedBy, hp c j]
  cases p c [] <;> simp

/-- A question for what is ahead with a writer writes. -/
theorem wouldMatch (hp : Writes p) : Writes p.wouldMatch := by
  intro c j
  rw [Parser.wouldMatch, Parser.wouldMatch, hp c j]
  cases p c [] <;> simp

/-- A writer is one at its own column too. -/
theorem atOwnIndent (hp : Writes p) : Writes p.atOwnIndent := by
  intro c j
  rw [Parser.atOwnIndent, Parser.atOwnIndent, hp _ j]
  cases p (c.withReference c.here) [] <;> simp

/-- What is read twice writes, since the second reading starts from the first journal. -/
theorem reread {p : Parser (List ε) (Option α)} {q : Parser (List ε) α} (hp : Writes p)
    (hq : Writes q) : Writes (p.reread q) := by
  intro c j
  rw [Parser.reread, Parser.reread, hp c j, hq c j]
  cases p c [] with
  | ok o c' w => cases o <;> rfl
  | miss i e w => rfl
  | fatal i x w => rfl

end Writes

end Parser

/-! ## Plans write -/

namespace Checkpoint

/-- A checkpoint with its entries added to a journal. -/
def onto (j : List ε) (t : Checkpoint (List ε)) : Checkpoint (List ε) :=
  { t with journal := j ++ t.journal, savedJournal := j ++ t.savedJournal }

/-- A writer that is run in a transaction only adds to its journal. -/
theorem run_onto {p : Parser (List ε) α} (hp : p.Writes) (t : Checkpoint (List ε)) (j : List ε) :
    (t.onto j).run p = ((t.run p).1, (t.run p).2.onto j) := by
  simp only [run, onto, hp.append t.cursor j t.journal]
  cases p t.cursor t.journal <;> rfl

/-- A transaction that starts with some entries is an empty one behind them. -/
theorem start_onto (c : Cursor) (j : List ε) : (start c []).onto j = start c j := by
  simp only [onto, start, List.append_nil]

end Checkpoint

mutual

/-- A plan writes if its leaves do. -/
theorem Plan.writes : {α : Type} → (t : Plan (List ε) α) → t.Leaves Parser.Writes →
    t.parser.Writes
  | _, .leaf _, h => h
  | _, .delayed make, h => fun c j => (make c).writes (h c) c j
  | _, .bind p f, h => (p.writes h.1).bind fun a => (f a).writes (h.2 a)
  | _, .orElse p q, h => (p.writes h.1).orElse (q.writes h.2)
  | _, .many p owed, h => (p.writes h).many owed
  | _, .manyTill p stop, h => (p.writes h.1).manyTill (stop.writes h.2)
  | _, .block item continues owed, h => (item.writes h.1).block (continues.writes h.2) owed
  | _, .optional p, h => (p.writes h).optional
  | _, .filter _ _ p, h => (p.writes h).filter
  | _, .chainRest operand operator acc, h =>
    (operand.writes h.1).chainRest (operator.writes h.2) acc
  | _, .lookAhead p, h => (p.writes h).lookAhead
  | _, .notFollowedBy p _, h => (p.writes h).notFollowedBy
  | _, .wouldMatch p, h => (p.writes h).wouldMatch
  | _, .atOwnIndent p, h => (p.writes h).atOwnIndent
  | _, .reread p q, h => (p.writes h.1).reread (q.writes h.2)
  | _, .inSteps s, h => fun c j =>
    (congrArg s.perform (Checkpoint.start_onto c j).symm).trans (s.writes h _ j)

/-- Steps over writers only add to the journal. -/
theorem Steps.writes : {α : Type} → (s : Steps (List ε) α) → s.Leaves Parser.Writes →
    ∀ (t : Checkpoint (List ε)) (j : List ε), s.perform (t.onto j) = (s.perform t).onto j
  | _, .finish _, _, _, _ => rfl
  | _, .settle _, _, _, _ => rfl
  | _, .run p next, h, t, j => by
    rw [Steps.perform, Steps.perform, Checkpoint.run_onto (p.writes h.1)]
    cases t.run p.parser with
    | mk r t' =>
      cases r with
      | ok a => exact (next a).writes (h.2 a) t' j
      | error f => cases f <;> rfl
  | _, .indentHere next, h, t, j => next.writes h t.indentHere j
  | _, .commit next, h, t, j => next.writes h t.commit j
  | _, .rollback next, h, t, j => next.writes h t.rollback j

end

end Dialogue
