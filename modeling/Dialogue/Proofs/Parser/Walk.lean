import Dialogue.Proofs.Cursor.Place
import Dialogue.Proofs.Parser.Plan

/-!
# Walks

A parser *walks* if it only moves ahead in its source: the cursor that it answers is ahead, with
the same reference, and where it does not answer, the offset that it tells is one ahead of the
*origin*, the place where the whole parse began. A miss tells something that was expected, and
a fatal failure has a reason that is allowed.

As a triple, `Walks F o P p Q` speaks of the places where `p` starts and stops: from one that
satisfies `P`, it answers what satisfies `Q`. The places are mostly `Below` a bound on the bytes
ahead.

There is one rule for each combinator. A repetition that takes something each time is never
without end: this is what `Walks.block` and `Walks.chainLeft` ask for where `endless` is not an
allowed reason.
-/

namespace Dialogue

variable {σ α β : Type}

/-- Less than so many bytes are ahead. -/
def Cursor.Below (n : Nat) (c : Cursor) : Prop := c.remaining < n

/-- A line break is next, or nothing is ahead. -/
def Cursor.AtLineEnd (c : Cursor) : Prop :=
  c.atEnd ∨ ∃ x xs, c.rest = x :: xs ∧ Text.isBreak x

open Cursor (Below)

/-- What a parser that walks may reply from `c`, in a parse that began at `o`. -/
def Reply.Walked (F : Reason → Prop) (o c : Cursor) (Q : α → Cursor → Prop) :
    Reply σ α → Prop
  | .ok a c' _ => c.Ahead c' ∧ c'.reference = c.reference ∧ Q a c'
  | .miss i e _ => o.Sees i ∧ e ≠ []
  | .fatal i x _ => o.Sees i ∧ F x

namespace Reply.Walked

variable {F : Reason → Prop} {o c c' : Cursor} {Q R : α → Cursor → Prop} {r : Reply σ α}

/-- A reply may be known to answer less. -/
theorem mono (h : r.Walked F o c Q) (hQ : ∀ a c', c.Ahead c' → Q a c' → R a c') :
    r.Walked F o c R := by
  cases r with
  | ok a c' j => exact ⟨h.1, h.2.1, hQ a c' h.1 h.2.2⟩
  | miss i e j => exact h
  | fatal i x j => exact h

/-- What is in view from a place is so from further back. -/
theorem back (h : r.Walked F o c' Q) (hc : c.Ahead c') (hr : c'.reference = c.reference) :
    r.Walked F o c Q := by
  cases r with
  | ok a c'' j => exact ⟨hc.trans h.1, h.2.1.trans hr, h.2.2⟩
  | miss i e j => exact h
  | fatal i x j => exact h

/-- A reply whose answer is mapped has walked as far. -/
theorem map {f : α → β} {R : β → Cursor → Prop} (h : r.Walked F o c fun a => R (f a)) :
    (r.map f).Walked F o c R := by
  cases r <;> exact h

/-- An answer is ahead, with the same reference. -/
theorem of_ok {a : α} {j : σ} (h : r.Walked F o c Q) (hr : r = .ok a c' j) :
    c.Ahead c' ∧ c'.reference = c.reference ∧ Q a c' := by
  rwa [hr] at h

/-- A miss is in view, and something was expected. -/
theorem of_miss {i : Nat} {e : List String} (h : r.Walked F o c Q)
    (hr : r.outcome = .error (.miss i e)) : o.Sees i ∧ e ≠ [] := by
  cases r <;> cases hr
  exact h

/-- A fatal failure is in view, and for an allowed reason. -/
theorem of_fatal {i : Nat} {x : Reason} (h : r.Walked F o c Q)
    (hr : r.outcome = .error (.fatal i x)) : o.Sees i ∧ F x := by
  cases r <;> cases hr
  exact h

end Reply.Walked

namespace Parser

/-- In a parse that began at `o`, started where `P` holds, `p` moves ahead, and answers what
    satisfies `Q` together with the place where it stops. -/
def Walks (F : Reason → Prop) (o : Cursor) (P : Cursor → Prop) (p : Parser σ α)
    (Q : α → Cursor → Prop) : Prop :=
  ∀ ⦃c⦄ j, o.Ahead c → P c → (p c j).Walked F o c Q

namespace Walks

variable {F : Reason → Prop} {o : Cursor} {P P' : Cursor → Prop} {Q R : α → Cursor → Prop}
  {S : β → Cursor → Prop} {p : Parser σ α} {n k : Nat}

/-! ## Rules for every parser -/

/-- A walk may start at fewer places. -/
theorem pre (h : Walks F o P p Q) (hP : ∀ c, P' c → P c) : Walks F o P' p Q :=
  fun _ j ho hc => h j ho (hP _ hc)

/-- A walk may be known to stop at more places. -/
theorem mono (h : Walks F o P p Q) (hQ : ∀ a c, Q a c → R a c) : Walks F o P p R :=
  fun _ j ho hc => (h j ho hc).mono fun a c' _ => hQ a c'

/-- A fact that does not depend on the place. -/
theorem fact {A : Prop} (h : A → Walks F o P p Q) : Walks F o (fun c => A ∧ P c) p Q :=
  fun _ j ho hc => h hc.1 j ho hc.2

/-- What is ahead does not get more. -/
theorem below (h : Walks F o P p Q) (hP : ∀ c, P c → Below n c) :
    Walks F o P p fun a c => Q a c ∧ Below n c :=
  fun _ j ho hc => (h j ho hc).mono fun _ _ ha hQ =>
    ⟨hQ, Nat.lt_of_le_of_lt ha.remaining_le (hP _ hc)⟩

/-- What reads nothing walks nowhere. -/
theorem pure {a : α} (h : ∀ c, P c → Q a c) : Walks F o P (Pure.pure a : Parser σ α) Q :=
  fun c _ _ hc => ⟨.refl c, rfl, h c hc⟩

/-- Two walks one after the other are a walk. -/
theorem bind {f : α → Parser σ β} (hp : Walks F o P p Q) (hf : ∀ a, Walks F o (Q a) (f a) S) :
    Walks F o P (p >>= f) S := by
  intro c j ho hc
  have h := hp j ho hc
  rw [bind_apply]
  cases hr : p c j with
  | ok a c' j' =>
    rw [hr] at h
    exact (hf a j' (ho.trans h.1) h.2.2).back h.1 h.2.1
  | miss i e j' => rwa [hr] at h
  | fatal i x j' => rwa [hr] at h

/-- The answer of a walk may be mapped. -/
theorem map {f : α → β} (hp : Walks F o P p fun a => S (f a)) : Walks F o P (f <$> p) S :=
  hp.bind fun _ => pure fun _ h => h

/-- Two walks of which the first one answers are a walk. -/
theorem seqLeft {q : Parser σ β} (hp : Walks F o P p Q)
    (hq : ∀ a, Walks F o (Q a) q fun _ => R a) : Walks F o P (p <* q) R :=
  hp.bind fun a => (hq a).bind fun _ => pure fun _ h => h

/-- Two walks of which the second one answers are a walk. -/
theorem seqRight {q : Parser σ β} (hp : Walks F o P p Q) (hq : ∀ a, Walks F o (Q a) q S) :
    Walks F o P (p *> q) S :=
  hp.bind hq

/-- Two failures together expect something if the first one does. -/
theorem union_ne_nil {first second : List String} (h : first ≠ []) :
    Failure.union first second ≠ [] := by
  rw [Failure.union]
  induction second generalizing first with
  | nil => exact h
  | cons e second ih =>
    rw [List.foldl_cons]
    refine ih ?_
    split
    · exact h
    · exact List.append_ne_nil_of_left_ne_nil h _

/-- An alternative of two walks is a walk, and tells what both of them expected. -/
theorem orElse {q : Parser σ α} (hp : Walks F o P p Q) (hq : Walks F o P q Q) :
    Walks F o P (p <|> q) Q := by
  intro c j ho hc
  have h := hp j ho hc
  change (Parser.orElse p q c j).Walked F o c Q
  rw [Parser.orElse]
  cases hr : p c j with
  | ok a c' j' => rwa [hr] at h
  | fatal i x j' => rwa [hr] at h
  | miss i e j' =>
    rw [hr] at h
    have h' := hq j ho hc
    cases hr' : q c j with
    | ok a c' j' => rwa [hr'] at h'
    | fatal i x j' => rwa [hr'] at h'
    | miss i' e' j' => exact ⟨ho.sees_index, union_ne_nil h.2⟩

/-- A walk that may be missing is a walk. -/
theorem optional {S : Option α → Cursor → Prop} (hp : Walks F o P p fun a => S (some a))
    (hn : ∀ c, P c → S none c) : Walks F o P (Parser.optional p) S := by
  intro c j ho hc
  have h := hp j ho hc
  rw [Parser.optional]
  cases hr : p c j with
  | ok a c' j' => rwa [hr] at h
  | fatal i x j' => rwa [hr] at h
  | miss i e j' => exact ⟨.refl c, rfl, hn c hc⟩

/-- Going on with the answer, or without one from before. -/
theorem optionalBind {f : Option α → Parser σ β} (hp : Walks F o P p Q)
    (hsome : ∀ a, Walks F o (Q a) (f (some a)) S) (hnone : Walks F o P (f none) S) :
    Walks F o P (Parser.optional p >>= f) S := by
  refine bind (Q := fun s c => s.elim (P c) (Q · c)) (optional hp fun _ h => h) fun s => ?_
  cases s with
  | some a => exact hsome a
  | none => exact hnone

/-- A walk whose answer is checked is a walk. -/
theorem filter {accepts : α → Bool} {what : String} (hp : Walks F o P p Q) :
    Walks F o P (Parser.filter accepts what p) Q := by
  intro c j ho hc
  have h := hp j ho hc
  rw [Parser.filter]
  cases hr : p c j with
  | ok a c' j' =>
    rw [hr] at h
    dsimp only
    split
    · exact h
    · exact ⟨ho.sees_index, List.cons_ne_nil _ _⟩
  | miss i e j' => rwa [hr] at h
  | fatal i x j' => rwa [hr] at h

/-- A look ahead stays where it is. -/
theorem lookAhead (hp : Walks F o P p Q) : Walks F o P (Parser.lookAhead p) fun _ => P := by
  intro c j ho hc
  have h := hp j ho hc
  rw [Parser.lookAhead]
  cases hr : p c j with
  | ok a c' j' => exact ⟨.refl c, rfl, hc⟩
  | miss i e j' => rw [hr] at h; exact ⟨ho.sees_index, h.2⟩
  | fatal i x j' => rwa [hr] at h

/-- A look for what must not be there stays where it is. -/
theorem notFollowedBy {what : String} (hp : Walks F o P p Q) :
    Walks F o P (Parser.notFollowedBy p what) fun _ => P := by
  intro c j ho hc
  have h := hp j ho hc
  rw [Parser.notFollowedBy]
  cases hr : p c j with
  | ok a c' j' => exact ⟨ho.sees_index, List.cons_ne_nil _ _⟩
  | miss i e j' => exact ⟨.refl c, rfl, hc⟩
  | fatal i x j' => rwa [hr] at h

/-- A question for what is ahead stays where it is. -/
theorem wouldMatch (hp : Walks F o P p Q) : Walks F o P (Parser.wouldMatch p) fun _ => P := by
  intro c j ho hc
  have h := hp j ho hc
  rw [Parser.wouldMatch]
  cases hr : p c j with
  | ok a c' j' => exact ⟨.refl c, rfl, hc⟩
  | miss i e j' => exact ⟨.refl c, rfl, hc⟩
  | fatal i x j' => rwa [hr] at h

/-- The reference is given back. -/
theorem atOwnIndent (hp : Walks F o (Below n) p fun a c => R a c)
    (hR : ∀ a c r, R a c → R a (Cursor.withReference r c)) :
    Walks F o (Below n) (Parser.atOwnIndent p) R := by
  intro c j ho hc
  have h := hp j (ho.withReference c.here) hc
  rw [Parser.atOwnIndent]
  cases hr : p (c.withReference c.here) j with
  | ok a c' j' =>
    rw [hr] at h
    exact ⟨h.1.of_withReference.withReference _, rfl, hR a c' _ h.2.2⟩
  | miss i e j' => rwa [hr] at h
  | fatal i x j' => rwa [hr] at h

/-- A walk may start in one of two ways. -/
theorem or (h : Walks F o P p Q) (h' : Walks F o P' p Q) :
    Walks F o (fun c => P c ∨ P' c) p Q :=
  fun _ j ho hc => hc.elim (h j ho) (h' j ho)

/-- A decision between two walks is a walk. -/
theorem ite {b : Prop} [Decidable b] {q : Parser σ α} (hp : b → Walks F o P p Q)
    (hq : ¬b → Walks F o P q Q) : Walks F o P (if b then p else q) Q := by
  split
  · exact hp ‹b›
  · exact hq ‹¬b›

/-- Where a condition holds `stop` is run first, which never answers. -/
theorem stopIf {b : Prop} [Decidable b] {stop : Parser σ Unit}
    (hstop : ∀ R, Walks F o P stop R) (hp : Walks F o P p Q) :
    Walks F o P (if b then stop >>= fun _ => p else p) Q :=
  ite (fun _ => (hstop fun _ => P).bind fun _ => hp) fun _ => hp

/-- Failing for good at an offset in view is a walk. -/
theorem fatalAt {i : Nat} {x : Reason} (hi : o.Sees i) (hx : F x) :
    Walks F o P (Parser.fatalAt i x : Parser σ α) Q :=
  fun _ _ _ _ => ⟨hi, hx⟩

/-- A miss at an offset in view is a walk if something was expected. -/
theorem missAt {i : Nat} {e : List String} (hi : o.Sees i) (he : e ≠ []) :
    Walks F o P (fun _ j => .miss i e j : Parser σ α) Q :=
  fun _ _ _ _ => ⟨hi, he⟩

/-- A miss at the place itself is a walk. -/
theorem expected {what : String} : Walks F o P (Parser.expected what : Parser σ α) Q :=
  fun _ _ ho _ => ⟨ho.sees_index, List.cons_ne_nil _ _⟩

/-- An offset that is answered is in view. -/
theorem position : Walks F o P (Parser.position : Parser σ Nat) fun i c => o.Sees i ∧ P c :=
  fun c _ ho hc => ⟨.refl c, rfl, ho.sees_index, hc⟩

/-- Looking at the journal stays where it is. -/
theorem journal : Walks F o P (Parser.journal : Parser σ σ) fun _ => P :=
  fun c _ _ hc => ⟨.refl c, rfl, hc⟩

/-- Changing the journal stays where it is. -/
theorem record {f : σ → σ} : Walks F o P (Parser.record f) fun _ => P :=
  fun c _ _ hc => ⟨.refl c, rfl, hc⟩

/-- What is read twice walks as the second reading does. -/
theorem reread {p : Parser σ (Option α)} {q : Parser σ α} {S : Option α → Cursor → Prop}
    (hp : Walks F o P p S) (hS : ∀ a c, S (some a) c → Q a c) (hq : Walks F o P q Q) :
    Walks F o P (Parser.reread p q) Q := by
  intro c j ho hc
  have h := hp j ho hc
  rw [Parser.reread]
  cases hr : p c j with
  | ok s c' j' =>
    rw [hr] at h
    cases s with
    | none => exact hq j ho hc
    | some a => exact ⟨h.1, h.2.1, hS a c' h.2.2⟩
  | miss i e j' => rwa [hr] at h
  | fatal i x j' => rwa [hr] at h

/-! ## Repetitions -/

/-- A repetition stays within the bound that its item stays in. -/
theorem many (owed : Nat) (hp : Walks F o (Below n) p fun _ => Below n) :
    Walks F o (Below n) (Parser.many p owed) fun _ => Below n := by
  intro c
  induction hm : c.remaining using Nat.strongRecOn generalizing owed c with
  | ind m ih =>
    intro j ho hc
    subst hm
    have h := hp j ho hc
    rw [Parser.many]
    cases hr : p c j with
    | ok a c' j' =>
      rw [hr] at h
      dsimp only
      split
      · rename_i hlt
        have hrest := (ih _ hlt (owed - 1) rfl j' (ho.trans h.1) h.2.2).back h.1 h.2.1
        exact Reply.Walked.map (R := fun _ => Below n) hrest
      · exact h
    | miss i e j' =>
      rw [hr] at h
      dsimp only
      split
      · exact ⟨.refl c, rfl, hc⟩
      · exact ⟨h.1, List.cons_ne_nil _ _⟩
    | fatal i x j' => rwa [hr] at h

/-- A repetition with a stop stays within the bound that its item stays in. -/
theorem manyTill {stop : Parser σ β} (hp : Walks F o (Below n) p fun _ => Below n)
    (hs : Walks F o (Below n) stop S) :
    Walks F o (Below n) (Parser.manyTill p stop) fun _ => Below n := by
  intro c
  induction hm : c.remaining using Nat.strongRecOn generalizing c with
  | ind m ih =>
    intro j ho hc
    subst hm
    have hs := hs j ho hc
    have h := hp j ho hc
    rw [Parser.manyTill]
    cases hr : stop c j with
    | ok b c' j' => exact ⟨.refl c, rfl, hc⟩
    | fatal i x j' => rwa [hr] at hs
    | miss i e j' =>
      rw [hr] at hs
      cases hr' : p c j with
      | ok a c' j' =>
        rw [hr'] at h
        dsimp only
        split
        · rename_i hlt
          have hrest := (ih _ hlt rfl j' (ho.trans h.1) h.2.2).back h.1 h.2.1
          exact Reply.Walked.map (R := fun _ => Below n) hrest
        · exact hs
      | miss i' e' j' =>
        rw [hr'] at h
        dsimp only
        split
        · exact hs
        · exact h
      | fatal i x j' => rwa [hr'] at h

/-- The items of a block satisfy `A`, and the first of them gets below `k`. If a block must not
    be without end, each line has to take something, or to reach the end of the source. -/
theorem block {item : Parser σ α} {continues : Parser σ β} (owed : Nat) {A : α → Prop}
    (hitem : Walks F o (Below n) (item <* lineEnd) fun a c => A a ∧ Below k c)
    (hcont : Walks F o (Below n) continues S)
    (hend : F .endless ∨
      ∀ m < n, Walks F o (Below (m + 1)) (item <* lineEnd) fun _ => Below (max m 1)) :
    Walks F o (Below n) (Parser.block item continues owed)
      fun as c => (∀ a ∈ as, A a) ∧ Below k c := by
  intro c
  induction hm : c.remaining using Nat.strongRecOn generalizing owed c with
  | ind m ih =>
    intro j ho hc
    subst hm
    have h := hitem j ho hc
    have hprogress := hend.imp_right fun h => h c.remaining hc j ho (Nat.lt_succ_self _)
    rw [Parser.block]
    cases hr : (item <* lineEnd) c j with
    | miss i e j' => rwa [hr] at h
    | fatal i x j' => rwa [hr] at h
    | ok a c' j' =>
      rw [hr] at h hprogress
      obtain ⟨hahead, href, ha, hk⟩ := h
      have hlast : (Reply.ok [a] c' j' : Reply σ _).Walked F o c
          fun as c => (∀ a ∈ as, A a) ∧ Below k c :=
        ⟨hahead, href, List.forall_mem_singleton.2 ha, hk⟩
      dsimp only
      split
      · exact hlast
      rename_i he
      have hnext : c'.Ahead (c'.skipWhile Text.isBlank) := Cursor.ahead_skip _ c'
      have honext := ho.trans (hahead.trans hnext)
      have hnextBelow : Below n (c'.skipWhile Text.isBlank) :=
        Nat.lt_of_le_of_lt (hahead.trans hnext).remaining_le hc
      have hcont := hcont j' honext hnextBelow
      cases hr' : continues (c'.skipWhile Text.isBlank) j' with
      | miss i e j'' =>
        rw [hr'] at hcont
        dsimp only
        split
        · exact hlast
        · exact ⟨hcont.1, List.cons_ne_nil _ _⟩
      | fatal i x j'' => rwa [hr'] at hcont
      | ok b c'' j'' =>
        dsimp only
        split
        · rename_i hlt
          have hrest := ih _ hlt (owed - 1) rfl j'' honext hnextBelow
          refine ((hrest.back (hahead.trans hnext) href).mono fun as c₃ _ hall => ?_).map
          exact ⟨List.forall_mem_cons.2 ⟨ha, hall.1⟩, hall.2⟩
        · rename_i hle
          refine ⟨honext.sees_index, hprogress.resolve_right fun hmax => hle ?_⟩
          -- Something is left, so the line has taken something.
          have hpos := Cursor.remaining_pos (c := c') (by simpa [Cursor.atEnd] using he)
          have hlt := hmax.2.2
          have := hnext.remaining_le
          simp only [Below] at hlt
          omega

/-- If a chain must not be without end, each operator has to take something. -/
theorem chainRest {operand : Parser σ α} {operator : Parser σ (α → α → α)} (acc : α)
    (hoperator : Walks F o (Below n) operator fun _ => Below n)
    (hoperand : Walks F o (Below n) operand fun _ => Below n)
    (hend : F .endless ∨ ∀ m < n, Walks F o (Below (m + 1)) operator fun _ => Below m) :
    Walks F o (Below n) (Parser.chainRest operand operator acc) fun _ => Below n := by
  intro c
  induction hm : c.remaining using Nat.strongRecOn generalizing acc c with
  | ind m ih =>
    intro j ho hc
    subst hm
    -- One link of the chain gets as far as its operator, and its operand only further.
    have hlink (m : Nat) (k : Nat) (hk : k ≤ n)
        (hop : Walks F o (Below m) operator fun _ => Below k) :
        Walks F o (Below m) (do let f ← operator; let a ← operand; Pure.pure (f acc a))
          fun _ => Below k := by
      refine hop.bind fun f => ((hoperand.pre fun c h => Nat.lt_of_lt_of_le h hk).below
        (fun _ h => h)).bind fun a => pure fun c h => h.2
    have h := hlink n n (Nat.le_refl n) hoperator j ho hc
    have hprogress := hend.imp_right fun h =>
      hlink _ _ (Nat.le_of_lt hc) (h c.remaining hc) j ho (Nat.lt_succ_self _)
    rw [Parser.chainRest]
    cases hr : (do let f ← operator; let a ← operand; Pure.pure (f acc a) : Parser σ α) c j with
    | miss i e j' => exact ⟨.refl c, rfl, hc⟩
    | fatal i x j' => rwa [hr] at h
    | ok acc' c' j' =>
      rw [hr] at h hprogress
      dsimp only
      split
      · rename_i hlt
        exact (ih _ hlt acc' rfl j' (ho.trans h.1) h.2.2).back h.1 h.2.1
      · rename_i hle
        exact ⟨ho.sees_index, hprogress.resolve_right fun h => hle h.2.2⟩

/-- A chain walks, and is not without end if its operator takes something. -/
theorem chainLeft {operand : Parser σ α} {operator : Parser σ (α → α → α)}
    (hfirst : Walks F o P operand fun _ => Below n)
    (hoperator : Walks F o (Below n) operator fun _ => Below n)
    (hoperand : Walks F o (Below n) operand fun _ => Below n)
    (hend : F .endless ∨ ∀ m < n, Walks F o (Below (m + 1)) operator fun _ => Below m) :
    Walks F o P (Parser.chainLeft operand operator) fun _ => Below n :=
  hfirst.bind fun acc => chainRest acc hoperator hoperand hend

end Walks

end Parser

end Dialogue
