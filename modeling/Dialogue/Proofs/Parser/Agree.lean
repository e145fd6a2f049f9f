import Dialogue.Proofs.Parser.Run

/-!
# Agreement of two runs

Two parsers that are run at places of two sources *reply alike* if both answer the same value
and are at related places behind it, with related journals, or if both miss, or if both fail for
good (`Reply.Alike`). A repetition that would never end is alike to everything: it stands for a
run that cannot be compared, as one is where nothing may be nested any more.

As a triple for two runs, `Agree J P p q Q` says that `p` and `q` reply alike wherever `P` relates
the places and `J` the journals, and that `Q` relates the places behind what they answer. There
is one rule for each combinator, so that an agreement of two rules of a grammar follows their
text. Of a value that is only looked at, such as an offset, no more is asked than that both
answer one (`Agree.bindAny`).
-/

namespace Dialogue

variable {σ α β : Type}

/-- A repetition has no end. -/
def Reply.Endless (r : Reply σ α) : Prop := ∃ i j, r = .fatal i .endless j

/-- What is without end stays so, whatever would come next. -/
theorem Reply.Endless.bind {r : Reply σ α} (h : r.Endless) (f : α → Parser σ β) :
    (r.bind f).Endless := by
  obtain ⟨i, j, rfl⟩ := h
  exact ⟨i, j, rfl⟩

/-- Two replies are of one kind, with the same value if they have one. -/
inductive Reply.Alike (J : σ → σ → Prop) (Q : Cursor → Cursor → Prop) :
    Reply σ α → Reply σ α → Prop where
  /-- Both have the value. -/
  | ok {a : α} {c d : Cursor} {j k : σ} (hQ : Q c d) (hJ : J j k) :
    Alike J Q (.ok a c j) (.ok a d k)
  /-- Both are misses. -/
  | miss {i i' : Nat} {e e' : List String} {j k : σ} : Alike J Q (.miss i e j) (.miss i' e' k)
  /-- Both are fatal. -/
  | fatal {i i' : Nat} {x x' : Reason} {j k : σ} : Alike J Q (.fatal i x j) (.fatal i' x' k)
  /-- The first one cannot be compared. -/
  | endlessLeft {i : Nat} {j : σ} {r : Reply σ α} : Alike J Q (.fatal i .endless j) r
  /-- The second one cannot be compared. -/
  | endlessRight {i : Nat} {j : σ} {r : Reply σ α} : Alike J Q r (.fatal i .endless j)

namespace Reply.Alike

variable {J : σ → σ → Prop} {Q R : Cursor → Cursor → Prop} {r r' : Reply σ α}

/-- What is made of two replies is alike if it is for answers and for misses, and if what is
    fatal is passed on. -/
theorem through {F G : Reply σ α → Reply σ β} (h : r.Alike J R r')
    (hok : ∀ {a c d j k}, R c d → J j k → (F (.ok a c j)).Alike J Q (G (.ok a d k)))
    (hmiss : ∀ {i i' e e' j k}, (F (.miss i e j)).Alike J Q (G (.miss i' e' k)))
    (hF : ∀ i x j, ∃ j', F (.fatal i x j) = .fatal i x j')
    (hG : ∀ i x j, ∃ j', G (.fatal i x j) = .fatal i x j') : (F r).Alike J Q (G r') := by
  cases h with
  | ok hR hJ => exact hok hR hJ
  | miss => exact hmiss
  | @fatal i i' x x' j k =>
    obtain ⟨_, hF⟩ := hF i x j
    obtain ⟨_, hG⟩ := hG i' x' k
    rw [hF, hG]
    exact .fatal
  | @endlessLeft i j =>
    obtain ⟨_, hF⟩ := hF i .endless j
    rw [hF]
    exact .endlessLeft
  | @endlessRight i k =>
    obtain ⟨_, hG⟩ := hG i .endless k
    rw [hG]
    exact .endlessRight

/-- Replies that are alike may be known to be less near. -/
theorem mono (h : r.Alike J R r') (hQ : ∀ c d, R c d → Q c d) : r.Alike J Q r' :=
  h.through (F := id) (G := id) (fun hR hJ => .ok (hQ _ _ hR) hJ) .miss
    (fun _ _ _ => ⟨_, rfl⟩) fun _ _ _ => ⟨_, rfl⟩

/-- Mapping both answers keeps replies alike. -/
theorem map (f : α → β) (h : r.Alike J Q r') : (r.map f).Alike J Q (r'.map f) :=
  h.through .ok .miss (fun _ _ _ => ⟨_, rfl⟩) fun _ _ _ => ⟨_, rfl⟩

/-- Replies are alike either way round. -/
theorem swap (h : r.Alike J Q r') : r'.Alike (fun j k => J k j) (fun c d => Q d c) r := by
  cases h with
  | ok h hJ => exact .ok h hJ
  | miss => exact .miss
  | fatal => exact .fatal
  | endlessLeft => exact .endlessRight
  | endlessRight => exact .endlessLeft

end Reply.Alike

namespace Parser

/-- At places that `P` relates, with journals that `J` relates, `p` and `q` reply alike. -/
def Agree (J : σ → σ → Prop) (P : Cursor → Cursor → Prop) (p q : Parser σ α)
    (Q : Cursor → Cursor → Prop) : Prop :=
  ∀ ⦃c d j k⦄, P c d → J j k → (p c j).Alike J Q (q d k)

namespace Agree

variable {J : σ → σ → Prop} {P P' Q R : Cursor → Cursor → Prop} {p q : Parser σ α}

/-! ## Rules for every parser -/

/-- An agreement may be known to relate more places behind. -/
theorem mono (h : Agree J P p q Q) (hQ : ∀ c d, Q c d → R c d) : Agree J P p q R :=
  fun _ _ _ _ hP hJ => (h hP hJ).mono hQ

/-- An agreement may start at fewer places. -/
theorem pre (h : Agree J P p q Q) (hP : ∀ c d, P' c d → P c d) : Agree J P' p q Q :=
  fun _ _ _ _ hP' hJ => h (hP _ _ hP') hJ

/-- What holds wherever the first parser answers holds behind both. -/
theorem answers (h : Agree J P p q Q) {B : Cursor → Prop}
    (hB : ∀ ⦃c d j a c' j'⦄, P c d → p c j = .ok a c' j' → B c') :
    Agree J P p q fun c d => Q c d ∧ B c := by
  intro c d j k hP hJ
  have h := h hP hJ
  cases hr : p c j with
  | ok a c' j' =>
    rw [hr] at h
    generalize q d k = r at h ⊢
    cases h with
    | ok hQ hJ => exact .ok ⟨hQ, hB hP hr⟩ hJ
    | endlessRight => exact .endlessRight
  | miss i e j' =>
    rw [hr] at h
    generalize q d k = r at h ⊢
    cases h with
    | miss => exact .miss
    | endlessRight => exact .endlessRight
  | fatal i x j' =>
    rw [hr] at h
    generalize q d k = r at h ⊢
    cases h with
    | fatal => exact .fatal
    | endlessLeft => exact .endlessLeft
    | endlessRight => exact .endlessRight

/-- Agreement holds either way round. -/
theorem swap (h : Agree J P p q Q) :
    Agree (fun j k => J k j) (fun c d => P d c) q p fun c d => Q d c :=
  fun _ _ _ _ hP hJ => (h hP hJ).swap

/-- The same answer agrees with itself. -/
theorem pure {a : α} : Agree J P (Pure.pure a : Parser σ α) (Pure.pure a) P :=
  fun _ _ _ _ hP hJ => .ok hP hJ

/-- Two agreements one after the other agree. -/
theorem bind {f g : α → Parser σ β} (hp : Agree J P p q R)
    (hf : ∀ a, Agree J R (f a) (g a) Q) : Agree J P (p >>= f) (q >>= g) Q :=
  fun _ _ _ _ hP hJ => (hp hP hJ).through (F := (·.bind f)) (G := (·.bind g))
    (fun hR hJ => hf _ hR hJ) .miss (fun _ _ _ => ⟨_, rfl⟩) fun _ _ _ => ⟨_, rfl⟩

/-- The answers may be mapped. -/
theorem map {f : α → β} (hp : Agree J P p q Q) : Agree J P (f <$> p) (f <$> q) Q :=
  hp.bind fun _ => pure

/-- The answers may be dropped. -/
theorem discard (hp : Agree J P p q Q) :
    Agree J P (Functor.discard p) (Functor.discard q) Q :=
  hp.map

/-- Two values need not be the same if what follows agrees whatever they are. -/
theorem bindAny {α' : Type} {q : Parser σ α'} {f : α → Parser σ β} {g : α' → Parser σ β}
    (hp : Agree J P (Functor.discard p) (Functor.discard q) R)
    (hf : ∀ a b, Agree J R (f a) (g b) Q) : Agree J P (p >>= f) (q >>= g) Q := by
  intro c d j k hP hJ
  have h := hp hP hJ
  change ((p c j).map fun _ => ()).Alike J R ((q d k).map fun _ => ()) at h
  change ((p c j).bind f).Alike J Q ((q d k).bind g)
  generalize p c j = r, q d k = r' at h ⊢
  cases r <;> cases r' <;> cases h
  case ok.ok.ok a _ _ b _ _ hR hJ => exact hf a b hR hJ
  all_goals first | exact .miss | exact .fatal | exact .endlessLeft | exact .endlessRight

/-- Two agreements of which the first one answers agree. -/
theorem seqLeft {p' q' : Parser σ β} (hp : Agree J P p q R) (hq : Agree J R p' q' Q) :
    Agree J P (p <* p') (q <* q') Q :=
  hp.bind fun _ => hq.bind fun _ => pure

/-- Two agreements of which the second one answers agree. -/
theorem seqRight {p' q' : Parser σ β} (hp : Agree J P p q R) (hq : Agree J R p' q' Q) :
    Agree J P (p *> p') (q *> q') Q :=
  hp.bind fun _ => hq

/-- Alternatives agree if both of their parts do. -/
theorem orElse {p' q' : Parser σ α} (hp : Agree J P p q Q) (hq : Agree J P p' q' Q) :
    Agree J P (p <|> p') (q <|> q') Q := by
  intro c d j k hP hJ
  refine (hp hP hJ).through (F := fun r => (replying r).orElse p' c j)
    (G := fun r => (replying r).orElse q' d k) .ok ?_ (fun _ _ _ => ⟨_, rfl⟩) fun _ _ _ => ⟨_, rfl⟩
  intro i i' e e' j' k'
  exact (hq hP hJ).through (F := fun r => (replying (.miss i e j')).orElse (replying r) c j)
    (G := fun r => (replying (.miss i' e' k')).orElse (replying r) d k) .ok .miss
    (fun _ _ _ => ⟨_, rfl⟩) fun _ _ _ => ⟨_, rfl⟩

/-- What may be missing agrees. -/
theorem optional (hp : Agree J P p q P) :
    Agree J P (Parser.optional p) (Parser.optional q) P :=
  fun c d j k hP hJ => (hp hP hJ).through (F := fun r => (replying r).optional c j)
    (G := fun r => (replying r).optional d k) .ok (.ok hP hJ) (fun _ _ _ => ⟨_, rfl⟩)
    fun _ _ _ => ⟨_, rfl⟩

/-- Going on with the answer, or without one from before. -/
theorem optionalBind {f g : Option α → Parser σ β} (hp : Agree J P p q R)
    (hsome : ∀ a, Agree J R (f (some a)) (g (some a)) Q) (hnone : Agree J P (f none) (g none) Q) :
    Agree J P (Parser.optional p >>= f) (Parser.optional q >>= g) Q :=
  fun c d j k hP hJ => (hp hP hJ).through (F := fun r => ((replying r).optional c j).bind f)
    (G := fun r => ((replying r).optional d k).bind g) (fun hR hJ => hsome _ hR hJ)
    (hnone hP hJ) (fun _ _ _ => ⟨_, rfl⟩) fun _ _ _ => ⟨_, rfl⟩

/-- Looks ahead agree. -/
theorem lookAhead (hp : Agree J P p q Q) :
    Agree J P (Parser.lookAhead p) (Parser.lookAhead q) P :=
  fun c d j k hP hJ => (hp hP hJ).through (F := fun r => (replying r).lookAhead c j)
    (G := fun r => (replying r).lookAhead d k) (fun _ _ => .ok hP hJ) .miss
    (fun _ _ _ => ⟨_, rfl⟩) fun _ _ _ => ⟨_, rfl⟩

/-- Looks for what must not be there agree. -/
theorem notFollowedBy {what : String} (hp : Agree J P p q Q) :
    Agree J P (Parser.notFollowedBy p what) (Parser.notFollowedBy q what) P :=
  fun c d j k hP hJ => (hp hP hJ).through (F := fun r => (replying r).notFollowedBy what c j)
    (G := fun r => (replying r).notFollowedBy what d k) (fun _ _ => .miss) (.ok hP hJ)
    (fun _ _ _ => ⟨_, rfl⟩) fun _ _ _ => ⟨_, rfl⟩

/-- Questions for what is ahead agree. -/
theorem wouldMatch (hp : Agree J P p q Q) :
    Agree J P (Parser.wouldMatch p) (Parser.wouldMatch q) P :=
  fun c d j k hP hJ => (hp hP hJ).through (F := fun r => (replying r).wouldMatch c j)
    (G := fun r => (replying r).wouldMatch d k) (fun _ _ => .ok hP hJ) (.ok hP hJ)
    (fun _ _ _ => ⟨_, rfl⟩) fun _ _ _ => ⟨_, rfl⟩

/-- Offsets agree as far as they are not looked at. -/
theorem position :
    Agree J P (Functor.discard Parser.position) (Functor.discard Parser.position) P :=
  fun _ _ _ _ hP hJ => .ok hP hJ

/-- Changes agree that keep the journals related. -/
theorem record {f g : σ → σ} (h : ∀ j k, J j k → J (f j) (g k)) :
    Agree J P (Parser.record f) (Parser.record g) P :=
  fun _ _ _ _ hP hJ => .ok hP (h _ _ hJ)

/-- Two fatal failures agree, wherever and whatever for. -/
theorem fatalAt {i i' : Nat} {x x' : Reason} :
    Agree J P (Parser.fatalAt i x : Parser σ α) (Parser.fatalAt i' x') Q :=
  fun _ _ _ _ _ _ => .fatal

/-- Two misses agree, whatever was expected. -/
theorem missAt {i i' : Nat} {e e' : List String} :
    Agree J P (fun _ j => .miss i e j : Parser σ α) (fun _ k => .miss i' e' k) Q :=
  fun _ _ _ _ _ _ => .miss

/-- A decision agrees if both of its ways do. -/
theorem ite {b : Prop} [Decidable b] {p' q' : Parser σ α} (hp : b → Agree J P p q Q)
    (hq : ¬b → Agree J P p' q' Q) :
    Agree J P (if b then p else p') (if b then q else q') Q := by
  split
  · exact hp ‹b›
  · exact hq ‹¬b›

/-- Where a condition holds both run something first that never answers. -/
theorem stopIf {b : Prop} [Decidable b] {stop stop' : Parser σ Unit}
    (hstop : Agree J P stop stop' P) (hp : Agree J P p q Q) :
    Agree J P (if b then stop >>= fun _ => p else p) (if b then stop' >>= fun _ => q else q) Q :=
  ite (fun _ => hstop.bind fun _ => hp) fun _ => hp

/-- What is read twice agrees if both readings do. -/
theorem reread {p q : Parser σ (Option α)} {p' q' : Parser σ α} (hp : Agree J P p q Q)
    (hq : Agree J P p' q' Q) : Agree J P (Parser.reread p p') (Parser.reread q q') Q := by
  intro c d j k hP hJ
  refine (hp hP hJ).through (F := fun r => (replying r).reread p' c j)
    (G := fun r => (replying r).reread q' d k) (fun {a _ _ _ _} hQ hJ' => ?_) .miss
    (fun _ _ _ => ⟨_, rfl⟩) fun _ _ _ => ⟨_, rfl⟩
  cases a with
  | none => exact hq hP hJ
  | some a => exact .ok hQ hJ'

/-! ## Repetitions -/

/-- Chains agree from the first operand on. -/
theorem chainRest {operand operand' : Parser σ α} {operator operator' : Parser σ (α → α → α)}
    (hoperand : Agree J P operand operand' P) (hoperator : Agree J P operator operator' P)
    (acc : α) : Agree J P (Parser.chainRest operand operator acc)
      (Parser.chainRest operand' operator' acc) P := by
  have hlink (acc : α) : Agree J P
      (do let f ← operator; let b ← operand; Pure.pure (f acc b) : Parser σ α)
      (do let f ← operator'; let b ← operand'; Pure.pure (f acc b)) P :=
    hoperator.bind fun _ => hoperand.bind fun _ => pure
  intro c d j k hP hJ
  induction hn : c.remaining using Nat.strongRecOn generalizing acc c d j k with
  | ind n ih =>
    subst hn
    have h := hlink acc hP hJ
    rw [Parser.chainRest.eq_1 operand, Parser.chainRest.eq_1 operand']
    generalize (operator >>= _ : Parser σ α) c j = r, (operator' >>= _ : Parser σ α) d k = r' at h ⊢
    cases h with
    | ok hP hJ =>
      dsimp only
      split
      · split
        · exact ih _ ‹_› _ hP hJ rfl
        · exact .endlessRight
      · exact .endlessLeft
    | miss => exact .ok hP hJ
    | fatal => exact .fatal
    | endlessLeft => exact .endlessLeft
    | endlessRight => exact .endlessRight

/-- Chains agree if their operands and operators do. -/
theorem chainLeft {operand operand' : Parser σ α} {operator operator' : Parser σ (α → α → α)}
    (hoperand : Agree J P operand operand' P) (hoperator : Agree J P operator operator' P) :
    Agree J P (Parser.chainLeft operand operator) (Parser.chainLeft operand' operator') P :=
  hoperand.bind fun acc => hoperand.chainRest hoperator acc

/-- Behind an item and the end of its line `Q` holds. Both blocks stop there, at the end of the
    source or because the next line is no part of them, or both go on where it starts. -/
theorem block {item item' : Parser σ α} {continues continues' : Parser σ β} {owed : Nat}
    {N : Cursor → Cursor → Prop}
    (hitem : Agree J P (item <* lineEnd) (item' <* lineEnd) Q)
    (hend : ∀ c d, Q c d → c.atEnd = d.atEnd)
    (hnext : ∀ c d, Q c d → ¬c.atEnd → N (c.skipWhile Text.isBlank) (d.skipWhile Text.isBlank))
    (hcont : Agree J N continues continues' fun _ _ => True) (hN : ∀ c d, N c d → P c d) :
    Agree J P (Parser.block item continues owed) (Parser.block item' continues' owed) Q := by
  intro c d j k hP hJ
  induction hn : c.remaining using Nat.strongRecOn generalizing owed c d j k with
  | ind n ih =>
    subst hn
    have h := hitem hP hJ
    rw [Parser.block.eq_1 item, Parser.block.eq_1 item']
    generalize (item <* lineEnd : Parser σ α) c j = r, (item' <* lineEnd : Parser σ α) d k = r'
      at h ⊢
    cases h with
    | @ok a c₁ d₁ j₁ k₁ hQ hJ =>
      dsimp only
      rw [← hend _ _ hQ]
      -- Both are at the end or neither is, and where the blocks may go on their conditions agree.
      by_cases hstop : c₁.atEnd
      · rw [if_pos hstop, if_pos hstop]
        exact .ok hQ hJ
      · rw [if_neg hstop, if_neg hstop]
        have hnext := hnext _ _ hQ hstop
        have h := hcont hnext hJ
        generalize continues _ j₁ = r, continues' _ k₁ = r' at h ⊢
        cases h with
        | ok _ hJ =>
          dsimp only
          split
          · split
            · exact (ih _ ‹_› (hN _ _ hnext) hJ rfl).map _
            · exact .endlessRight
          · exact .endlessLeft
        | miss =>
          dsimp only
          split
          · exact .ok hQ hJ
          · exact .miss
        | fatal => exact .fatal
        | endlessLeft => exact .endlessLeft
        | endlessRight => exact .endlessRight
    | miss => exact .miss
    | fatal => exact .fatal
    | endlessLeft => exact .endlessLeft
    | endlessRight => exact .endlessRight

end Agree

end Parser

end Dialogue
