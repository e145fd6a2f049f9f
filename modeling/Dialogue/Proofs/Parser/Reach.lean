import Dialogue.Proofs.Parser.Run

/-!
# Reach

A *reach* tells what a parse may get to: from a cursor and a journal, those that a part may be
started with, and those that may be answered (`Reach`). If each leaf of a plan answers in
accordance with a reach, every part that is started in a run of the plan is, and so is the
answer of the run (`Plan.Runs.reached`).
-/

namespace Dialogue

variable {σ α β : Type}

/-- The first relation leads to where parts are started, the second one to what is answered. -/
structure Reach (S K : Cursor → σ → Cursor → σ → Prop) : Prop where
  /-- Taking nothing. -/
  refl (c : Cursor) (j : σ) : K c j c j
  /-- One after the other. -/
  trans {c c' c'' : Cursor} {j j' j'' : σ} : K c j c' j' → K c' j' c'' j'' → K c j c'' j''
  /-- Taking some characters. -/
  skip (n : Nat) (c : Cursor) (j : σ) : K c j (c.skip n) j
  /-- What is taken does not matter for the journal. -/
  stay {c c' : Cursor} {j j' : σ} : K c j c' j' → K c j c j'
  /-- The reference does not matter for what is taken. -/
  withReference {c c' : Cursor} {j j' : σ} (r : Reference) :
    K c j c' j' → K (c.withReference r) j (c'.withReference r) j'
  /-- A part may be started where another one has answered. -/
  start {c c' : Cursor} {j j' : σ} : K c j c' j' → S c j c' j'
  /-- The parts of a part are parts as well. -/
  nested {c c' c'' : Cursor} {j j' j'' : σ} : S c j c' j' → S c' j' c'' j'' → S c j c'' j''
  /-- A part may be started with its own indentation as the reference. -/
  here (c : Cursor) (j : σ) : S c j (c.withReference c.here) j

section

variable {S K : Cursor → σ → Cursor → σ → Prop}

/-- A part may be started where the parse is. -/
theorem Reach.self (hR : Reach S K) (c : Cursor) (j : σ) : S c j c j := hR.start (hR.refl c j)

/-- Skipping blanks is in reach. -/
theorem Reach.skipBlanks (hR : Reach S K) (c : Cursor) (j : σ) :
    K c j (c.skipWhile Text.isBlank) j :=
  hR.skip _ c j

end

/-- The part is started where the reach leads to. -/
def Event.From (S : Cursor → σ → Cursor → σ → Prop) (c : Cursor) (j : σ) : Event σ → Prop
  | .start c' j' => S c j c' j'
  | .stop _ => True

/-- What is answered is what the reach leads to. -/
def Reply.To (K : Cursor → σ → Cursor → σ → Prop) (c : Cursor) (j : σ) : Reply σ α → Prop
  | .ok _ c' j' => K c j c' j'
  | _ => True

/-- The parser answers what the reach leads to. -/
def Parser.Reaches (K : Cursor → σ → Cursor → σ → Prop) (p : Parser σ α) : Prop :=
  ∀ c j, (p c j).To K c j

/-- The events of a run and its reply are in the reach. -/
structure Reached (S K : Cursor → σ → Cursor → σ → Prop) (c : Cursor) (j : σ)
    (l : List (Event σ)) (r : Reply σ α) : Prop where
  /-- The parts are started where the reach leads to. -/
  events : ∀ e ∈ l, e.From S c j
  /-- The reply is what the reach leads to. -/
  reply : r.To K c j

variable {S K : Cursor → σ → Cursor → σ → Prop} {c c' : Cursor} {j j' : σ}

namespace Reply

variable {r : Reply σ α}

/-- A reply whose answer is mapped gets as far. -/
theorem To.map {f : α → β} (h : r.To K c j) : (r.map f).To K c j := by
  cases r <;> exact h

/-- What is reached from a place in reach is in reach. -/
theorem To.back (hR : Reach S K) (hk : K c j c' j') (h : r.To K c' j') : r.To K c j := by
  cases r with
  | ok a c'' j'' => exact hR.trans hk h
  | miss i e j'' => trivial
  | fatal i x j'' => trivial

end Reply

namespace Parser

/-! ## Replies that the combinators make of others -/

section

variable {r : Reply σ α}

/-- What may be missing gets as far as its reply. -/
theorem to_optional (hR : Reach S K) (h : r.To K c j) : ((replying r).optional c j).To K c j := by
  cases r with
  | ok a c' j' => exact h
  | miss i e j' => exact hR.refl c j
  | fatal i x j' => trivial

/-- What is checked gets as far as its reply. -/
theorem to_filter {accepts : α → Bool} {what : String} (h : r.To K c j) :
    ((replying r).filter accepts what c j).To K c j := by
  rw [filter, replying]
  cases r with
  | ok a c' j' =>
    dsimp only
    split
    · exact h
    · trivial
  | miss i e j' => trivial
  | fatal i x j' => trivial

/-- An alternative to a miss gets as far as its reply. -/
theorem to_orElse {i : Nat} {e : List String} (h : r.To K c j) :
    ((replying (.miss i e j')).orElse (replying r) c j).To K c j := by
  cases r with
  | ok a c' j' => exact h
  | miss i e j' => trivial
  | fatal i x j' => trivial

/-- A look ahead stays where it is. -/
theorem to_lookAhead (hR : Reach S K) : ((replying r).lookAhead c j).To K c j := by
  cases r with
  | ok a c' j' => exact hR.refl c j
  | miss i e j' => trivial
  | fatal i x j' => trivial

/-- A look for what must not be there stays where it is. -/
theorem to_notFollowedBy (hR : Reach S K) {what : String} :
    ((replying r).notFollowedBy what c j).To K c j := by
  cases r with
  | ok a c' j' => trivial
  | miss i e j' => exact hR.refl c j
  | fatal i x j' => trivial

/-- A question for what is ahead stays where it is. -/
theorem to_wouldMatch (hR : Reach S K) : ((replying r).wouldMatch c j).To K c j := by
  cases r with
  | ok a c' j' => exact hR.refl c j
  | miss i e j' => exact hR.refl c j
  | fatal i x j' => trivial

/-- Going back to the old reference is in reach. -/
theorem to_atOwnIndent (hR : Reach S K) (h : r.To K (c.withReference c.here) j) :
    ((replying r).atOwnIndent c j).To K c j := by
  cases r with
  | ok a c' j' => exact hR.withReference (c := c.withReference c.here) c.reference h
  | miss i e j' => trivial
  | fatal i x j' => trivial

/-- A first reading that is kept gets as far as its reply. -/
theorem to_reread {r : Reply σ (Option α)} {q : Parser σ α}
    (hr : ∀ c' j', r ≠ .ok none c' j') (h : r.To K c j) :
    ((replying r).reread q c j).To K c j := by
  rw [reread, replying]
  match r, hr with
  | .ok none c' j', hr => exact absurd rfl (hr c' j')
  | .ok (some a) c' j', _ => exact h
  | .miss i e j', _ => trivial
  | .fatal i x j', _ => trivial

/-- The last step of a repetition gets as far as its reply. -/
theorem to_many (hR : Reach S K) {owed : Nat}
    (hr : ∀ a c' j', r = .ok a c' j' → ¬c'.remaining < c.remaining) (h : r.To K c j) :
    ((replying r).many owed c j).To K c j := by
  rw [many, replying]
  cases r with
  | ok a c' j' =>
    dsimp only
    rw [dif_neg (hr a c' j' rfl)]
    exact h
  | miss i e j' =>
    dsimp only
    split
    · exact hR.refl c j
    · trivial
  | fatal i x j' => trivial

/-- A repetition gets as far as the stop that does not miss. -/
theorem to_manyTill_stop (hR : Reach S K) {p : Parser σ β} (hr : ∀ i e j', r ≠ .miss i e j') :
    (p.manyTill (replying r) c j).To K c j := by
  rw [manyTill, replying]
  cases r with
  | ok a c' j' => exact hR.refl c j
  | miss i e j' => exact absurd rfl (hr i e j')
  | fatal i x j' => trivial

/-- The last item before a stop gets as far as its reply. -/
theorem to_manyTill {i : Nat} {e : List String}
    (hr : ∀ a c' j', r = .ok a c' j' → ¬c'.remaining < c.remaining) :
    ((replying r).manyTill (replying (.miss i e j') : Parser σ β) c j).To K c j := by
  rw [manyTill, replying, replying]
  cases r with
  | ok a c' j' =>
    dsimp only
    rw [dif_neg (hr a c' j' rfl)]
    trivial
  | miss i e j' =>
    dsimp only
    split <;> trivial
  | fatal i x j' => trivial

end

end Parser

/-! ## Runs -/

section

variable {l l₁ l₂ : List (Event σ)} {r : Reply σ α}

/-- A part that is started in reach reaches nothing else. -/
theorem Reached.around (hR : Reach S K) (hs : S c j c' j') (h : Reached S K c' j' l r) :
    ∀ e ∈ Dialogue.around c' j' l r, e.From S c j := by
  have hl : ∀ e ∈ l, e.From S c j := fun e he => by
    have := h.events e he
    cases e with
    | start c'' j'' => exact hR.nested hs this
    | stop f => trivial
  refine List.forall_mem_append.2 ⟨List.forall_mem_cons.2 ⟨hs, hl⟩, ?_⟩
  exact List.forall_mem_singleton.2 trivial

/-- Only one part is run. -/
theorem Reached.only {r' : Reply σ β} (hR : Reach S K) (hs : S c j c' j')
    (h : Reached S K c' j' l r) (hr : r'.To K c j) :
    Reached S K c j (Dialogue.around c' j' l r) r' :=
  ⟨h.around hR hs, hr⟩

/-- What is reached from a place in reach is reached from further back. -/
theorem Reached.back (hR : Reach S K) (hk : K c j c' j') (h : Reached S K c' j' l r) :
    Reached S K c j l r := by
  refine ⟨fun e he => ?_, h.reply.back hR hk⟩
  have := h.events e he
  cases e with
  | start c'' j'' => exact hR.nested (hR.start hk) this
  | stop f => trivial

/-- Mapping the answer changes no event. -/
theorem Reached.map {f : α → β} (h : Reached S K c j l r) : Reached S K c j l (r.map f) :=
  ⟨h.events, h.reply.map⟩

/-- One part is run, and then what is left. -/
theorem Reached.after (h₁ : ∀ e ∈ l₁, e.From S c j) (h₂ : Reached S K c j l₂ r) :
    Reached S K c j (l₁ ++ l₂) r :=
  ⟨List.forall_mem_append.2 ⟨h₁, h₂.events⟩, h₂.reply⟩

end

/-! ## Steps on a checkpoint -/

/-- The checkpoint of steps that were begun at a place is in the reach, and so is what it has
    saved. -/
structure Checkpoint.Held (S K : Cursor → σ → Cursor → σ → Prop) (c : Cursor) (j : σ)
    (t : Checkpoint σ) : Prop where
  /-- The reference is the one to be given back. -/
  reference : t.reference = c.reference
  /-- With this reference, the current place may be answered. -/
  current : K c j (t.cursor.withReference c.reference) t.journal
  /-- At the current place a part may be started. -/
  running : S c j t.cursor t.journal
  /-- With this reference, what was saved may be answered. -/
  saved : K c j (t.savedCursor.withReference c.reference) t.savedJournal
  /-- At the place that was saved a part may be started. -/
  savedRunning : S c j t.savedCursor t.savedJournal

namespace Checkpoint.Held

variable {t : Checkpoint σ}

/-- A checkpoint is held where it starts. -/
theorem of_start (hR : Reach S K) (c : Cursor) (j : σ) : (Checkpoint.start c j).Held S K c j :=
  ⟨rfl, hR.refl c j, hR.start (hR.refl c j), hR.refl c j, hR.start (hR.refl c j)⟩

/-- A checkpoint is held behind an answer in reach. -/
theorem answered (hR : Reach S K) (h : t.Held S K c j) (hk : K t.cursor t.journal c' j') :
    { t with cursor := c', journal := j' : Checkpoint σ }.Held S K c j :=
  ⟨h.reference, hR.trans h.current (hR.withReference c.reference hk),
    hR.nested h.running (hR.start hk), h.saved, h.savedRunning⟩

/-- A checkpoint is held at another reference. -/
theorem indentHere (hR : Reach S K) (h : t.Held S K c j) : t.indentHere.Held S K c j :=
  ⟨h.reference, h.current, hR.nested h.running (hR.here _ _), h.saved, h.savedRunning⟩

/-- A checkpoint is held once it is committed. -/
theorem commit (h : t.Held S K c j) : t.commit.Held S K c j :=
  ⟨h.reference, h.current, h.running, h.current, h.running⟩

/-- A checkpoint is held once it has gone back. -/
theorem rollback (h : t.Held S K c j) : t.rollback.Held S K c j :=
  ⟨h.reference, h.saved, h.savedRunning, h.saved, h.savedRunning⟩

/-- What a checkpoint finishes with is in reach. -/
theorem finish (h : t.Held S K c j) : K c j t.finish.1 t.finish.2 := by
  change K c j (t.cursor.withReference t.reference) t.journal
  rw [h.reference]
  exact h.current

end Checkpoint.Held

/-- A failure answers nothing, so it is in reach. -/
theorem Failure.to_reply (e : Failure) (c : Cursor) (j j' : σ) :
    (e.reply j' : Reply σ α).To K c j := by
  cases e <;> trivial

/-- The leaves of a line are those of its item, and layout. -/
theorem Plan.leaves_line_reaches (hR : Reach S K) {item : Plan σ α}
    (h : item.Leaves (Parser.Reaches K)) : item.line.Leaves (Parser.Reaches K) := by
  refine leaves_line (P := Parser.Reaches K) (fun c j => hR.skip _ c j) (fun c j => ?_)
    (fun c j => ?_) (fun _ c j => hR.refl c j) h
  · rw [Parser.newline]
    split
    · exact hR.skip 2 c j
    · split
      · exact hR.skip 1 c j
      · trivial
    · trivial
  · rw [Parser.eof]
    split
    · exact hR.refl c j
    · trivial

open Dialogue.Parser

mutual

/-- A run is in the reach if the leaves of its plan are. -/
theorem Plan.Runs.reached (hR : Reach S K) {α : Type} {t : Plan σ α} {c : Cursor} {j : σ}
    {l : List (Event σ)} {r : Reply σ α} (h : t.Runs c j l r) :
    t.Leaves (Parser.Reaches K) → Reached S K c j l r :=
  match h with
  | .leaf h => fun ht => ⟨nofun, h ▸ ht _ _⟩
  | .delayed h => fun ht =>
    have h := h.reached hR (ht _)
    h.only hR (hR.self _ _) h.reply
  | .bind hp hf => fun ht =>
    have hp := hp.reached hR ht.1
    have hf := hf.reached hR (ht.2 _)
    .after (hp.around hR (hR.self _ _)) <|
      hf.only hR (hR.start hp.reply) (hf.reply.back hR hp.reply)
  | .bind_fail hp => fun ht => (hp.reached hR ht.1).only hR (hR.self _ _) (Failure.to_reply ..)
  | .orElse_left hp _ => fun ht =>
    have hp := hp.reached hR ht.1
    hp.only hR (hR.self _ _) hp.reply
  | .orElse_right hp hq => fun ht =>
    have hq := hq.reached hR ht.2
    .after ((hp.reached hR ht.1).around hR (hR.self _ _)) <|
      hq.only hR (hR.self _ _) (to_orElse hq.reply)
  | .many_next hp _ hrest => fun ht =>
    have hp := hp.reached hR ht
    .after (hp.around hR (hR.self _ _)) ((hrest.reached hR ht).back hR hp.reply).map
  | .many_last hp h => fun ht =>
    have hp := hp.reached hR ht
    hp.only hR (hR.self _ _) (to_many hR h hp.reply)
  | .manyTill_stop hs h => fun ht =>
    (hs.reached hR ht.2).only hR (hR.self _ _) (to_manyTill_stop hR h)
  | .manyTill_next hs hp _ hrest => fun ht =>
    have hp := hp.reached hR ht.1
    .after (List.forall_mem_append.2
        ⟨(hs.reached hR ht.2).around hR (hR.self _ _), hp.around hR (hR.self _ _)⟩) <|
      ((hrest.reached hR ht).back hR hp.reply).map
  | .manyTill_last hs hp h => fun ht =>
    .after ((hs.reached hR ht.2).around hR (hR.self _ _)) <|
      (hp.reached hR ht.1).only hR (hR.self _ _) (to_manyTill h)
  | .block_last hi _ => fun ht =>
    have hi := hi.reached hR (Plan.leaves_line_reaches hR ht.1)
    hi.only hR (hR.self _ _) hi.reply.map
  -- The condition of a block is read behind the blanks that lead the next line.
  | .block_next hi _ hc _ hrest => fun ht =>
    have hi := hi.reached hR (Plan.leaves_line_reaches hR ht.1)
    have hc := hc.reached hR ht.2
    have hnext := hR.trans hi.reply (hR.skipBlanks _ _)
    .after (List.forall_mem_append.2
        ⟨hi.around hR (hR.self _ _), hc.around hR (hR.start hnext)⟩) <|
      ((hrest.reached hR ht).back hR (hR.trans hnext (hR.stay hc.reply))).map
  | .block_stuck hi _ hc _ => fun ht =>
    have hi := hi.reached hR (Plan.leaves_line_reaches hR ht.1)
    .after (hi.around hR (hR.self _ _)) <|
      (hc.reached hR ht.2).only hR (hR.start (hR.trans hi.reply (hR.skipBlanks _ _))) trivial
  | .block_miss hi _ hc => fun ht =>
    have hi := hi.reached hR (Plan.leaves_line_reaches hR ht.1)
    .after (hi.around hR (hR.self _ _)) <|
      (hc.reached hR ht.2).only hR (hR.start (hR.trans hi.reply (hR.skipBlanks _ _))) <| by
        split
        · exact hi.reply
        · trivial
  | .block_fatal hi _ hc => fun ht =>
    have hi := hi.reached hR (Plan.leaves_line_reaches hR ht.1)
    .after (hi.around hR (hR.self _ _)) <|
      (hc.reached hR ht.2).only hR (hR.start (hR.trans hi.reply (hR.skipBlanks _ _))) trivial
  | .optional hp => fun ht =>
    have hp := hp.reached hR ht
    hp.only hR (hR.self _ _) (to_optional hR hp.reply)
  | .filter hp => fun ht =>
    have hp := hp.reached hR ht
    hp.only hR (hR.self _ _) (to_filter hp.reply)
  | .chainRest_next hs _ hrest => fun ht =>
    have hs := hs.reached hR (Plan.leaves_link (fun _ c j => hR.refl c j) ht.1 ht.2 _)
    .after (hs.around hR (hR.self _ _)) ((hrest.reached hR ht).back hR hs.reply)
  | .chainRest_stuck hs _ => fun ht =>
    (hs.reached hR (Plan.leaves_link (fun _ c j => hR.refl c j) ht.1 ht.2 _)).only hR
      (hR.self _ _) trivial
  | .chainRest_miss hs => fun ht =>
    (hs.reached hR (Plan.leaves_link (fun _ c j => hR.refl c j) ht.1 ht.2 _)).only hR
      (hR.self _ _) (hR.refl _ _)
  | .chainRest_fatal hs => fun ht =>
    (hs.reached hR (Plan.leaves_link (fun _ c j => hR.refl c j) ht.1 ht.2 _)).only hR
      (hR.self _ _) trivial
  | .lookAhead hp => fun ht => (hp.reached hR ht).only hR (hR.self _ _) (to_lookAhead hR)
  | .notFollowedBy hp => fun ht => (hp.reached hR ht).only hR (hR.self _ _) (to_notFollowedBy hR)
  | .wouldMatch hp => fun ht => (hp.reached hR ht).only hR (hR.self _ _) (to_wouldMatch hR)
  | .atOwnIndent hp => fun ht =>
    have hp := hp.reached hR ht
    hp.only hR (hR.here _ _) (to_atOwnIndent hR hp.reply)
  | .reread_first hp h => fun ht =>
    have hp := hp.reached hR ht.1
    hp.only hR (hR.self _ _) (to_reread h hp.reply)
  | .reread_second hp hq => fun ht =>
    have hq := hq.reached hR ht.2
    .after ((hp.reached hR ht.1).around hR (hR.self _ _)) (hq.only hR (hR.self _ _) hq.reply)
  | .inSteps h => fun ht => h.reached hR _ _ ht (.of_start hR _ _)

/-- Steps of a transaction stay in reach. -/
theorem Steps.Runs.reached (hR : Reach S K) {α : Type} {s : Steps σ α} {t : Checkpoint σ}
    {l : List (Event σ)} {r : Reply σ α} (h : s.Runs t l r) (c : Cursor) (j : σ) :
    s.Leaves (Parser.Reaches K) → t.Held S K c j → Reached S K c j l r :=
  match h with
  | .finish => fun _ ht => ⟨nofun, ht.finish⟩
  | .settle => fun _ ht => ⟨nofun, ht.rollback.finish⟩
  | .run hp h => fun hs ht =>
    have hp := hp.reached hR hs.1
    .after (hp.around hR ht.running) (h.reached hR c j (hs.2 _) (ht.answered hR hp.reply))
  | .run_fail hp => fun hs ht =>
    ⟨(hp.reached hR hs.1).around hR ht.running, Failure.to_reply ..⟩
  | .indentHere h => fun hs ht => h.reached hR c j hs (ht.indentHere hR)
  | .commit h => fun hs ht => h.reached hR c j hs ht.commit
  | .rollback h => fun hs ht => h.reached hR c j hs ht.rollback

end

end Dialogue
