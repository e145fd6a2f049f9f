import Dialogue.Proofs.Parser.Agree
import Dialogue.Proofs.Parser.Misses

/-!
# Answers that stay

Two runs may agree only if something holds of the place behind the answer, since that tells what is
ahead where they stand (`Copies`). In a sequence it is told from the second part what is behind the
first one. A chain of operands answers the same if each of them does where what may follow the chain
is next or one of its operators (`Copies.chainLeft`): behind the last one no operator is next in
either run, as there what follows is next.
-/

namespace Dialogue.Parser

variable {σ α β : Type} {J : σ → σ → Prop} {P : Cursor → Cursor → Prop} {A B : Cursor → Prop}

/-- Where `p` answers, and `A` holds of the place behind, `q` answers the same at a related
    place. -/
def Copies (J : σ → σ → Prop) (P : Cursor → Cursor → Prop) (A : Cursor → Prop)
    (p q : Parser σ α) : Prop :=
  ∀ ⦃c d j k a c' j'⦄, P c d → J j k → p c j = .ok a c' j' → A c' →
    (Reply.ok a c' j').Alike J P (q d k)

namespace Copies

variable {p q : Parser σ α}

/-- Parsers that agree at places where the first one answers. -/
theorem of_agree {P' : Cursor → Cursor → Prop} (h : Agree J P' p q P)
    (hP : ∀ ⦃c d j a c' j'⦄, P c d → p c j = .ok a c' j' → A c' → P' c d) : Copies J P A p q := by
  intro c d j k a c' j' hcd hJ hr hA
  have h := h (hP hcd hr hA) hJ
  rwa [hr] at h

/-- A copy may be asked for at fewer places. -/
theorem mono (h : Copies J P A p q) (hA : ∀ c, B c → A c) : Copies J P B p q :=
  fun _ _ _ _ _ _ _ hP hJ hr hB => h hP hJ hr (hA _ hB)

/-- What is behind the first rule is told from the second one. -/
theorem bind {f g : α → Parser σ β} (hp : Copies J P B p q) (hf : ∀ a, Copies J P A (f a) (g a))
    (hB : ∀ ⦃a c j b c' j'⦄, f a c j = .ok b c' j' → A c' → B c) :
    Copies J P A (p >>= f) (q >>= g) := by
  intro c d j k b c' j' hP hJ hr hA
  obtain ⟨a, c₁, j₁, hfirst, hrest⟩ := of_bind_eq_ok hr
  have h := hp hP hJ hfirst (hB hrest hA)
  rw [bind_apply]
  generalize q d k = r at h ⊢
  cases h with
  | ok hP hJ => exact hf a hP hJ hrest hA
  | endlessRight => exact .endlessRight

section

variable {operand operand' : Parser σ α} {operator operator' : Parser σ (α → α → α)}

/-- Behind an operand in a chain what follows the chain is next, or an operator. -/
theorem next_of_chainRest (hB : ∀ ⦃c j f c' j'⦄, operator c j = .ok f c' j' → B c) {acc a : α}
    {c c' : Cursor} {j j' : σ} (h : chainRest operand operator acc c j = .ok a c' j') (hA : A c') :
    A c ∨ B c := by
  rw [chainRest] at h
  cases hlink : (operator >>= fun f => operand >>= fun b => (pure (f acc b) : Parser σ α)) c j with
  | ok b c₁ j₁ =>
    obtain ⟨f, c₂, j₂, hf, -⟩ := of_bind_eq_ok hlink
    exact .inr (hB hf)
  | miss i e j₁ =>
    rw [hlink] at h
    cases h
    exact .inl hA
  | fatal i x j₁ =>
    rw [hlink] at h
    cases h

/-- A chain is copied from the first operand on. -/
theorem chainRest (hoperand : Copies J P (fun c => A c ∨ B c) operand operand')
    (hoperator : Copies J P (fun _ => True) operator operator')
    (hB : ∀ ⦃c j f c' j'⦄, operator c j = .ok f c' j' → B c)
    (hstop : ∀ ⦃c d⦄ k, P c d → A c → Misses operator' d k) (acc : α) :
    Copies J P A (Parser.chainRest operand operator acc)
      (Parser.chainRest operand' operator' acc) := by
  intro c d j k a c' j' hP hJ hr hA
  induction hn : c.remaining using Nat.strongRecOn generalizing acc c d j k with
  | ind n ih =>
    subst hn
    rw [Parser.chainRest] at hr
    cases hlink :
      (operator >>= fun f => operand >>= fun b => (pure (f acc b) : Parser σ α)) c j with
    | ok b c₁ j₁ =>
      rw [hlink] at hr
      dsimp only at hr
      split at hr
      · rename_i hless
        obtain ⟨f, c₂, j₂, hf, hlink⟩ := of_bind_eq_ok hlink
        obtain ⟨b, c₃, j₃, hb, ⟨⟩⟩ := of_bind_eq_ok hlink
        have hfirst := hoperator hP hJ hf trivial
        rw [Parser.chainRest, bind_apply]
        generalize operator' d k = r at hfirst ⊢
        cases hfirst with
        | endlessRight => exact .endlessRight
        | ok hP hJ =>
          have hsecond := hoperand hP hJ hb (next_of_chainRest hB hr hA)
          simp only [Reply.bind, bind_apply]
          generalize operand' _ _ = r at hsecond ⊢
          cases hsecond with
          | endlessRight => exact .endlessRight
          | ok hP hJ =>
            dsimp only [Reply.bind, pure_apply]
            split
            · exact ih _ hless _ hP hJ hr rfl
            · exact .endlessRight
      · cases hr
    -- Where the one chain ends, the other has no operator.
    | miss i e j₁ =>
      rw [hlink] at hr
      cases hr
      rw [chainRest_of_misses (hstop k hP hA)]
      exact .ok hP hJ
    | fatal i x j₁ =>
      rw [hlink] at hr
      cases hr

/-- A chain is copied if its operands and operators are. -/
theorem chainLeft (hoperand : Copies J P (fun c => A c ∨ B c) operand operand')
    (hoperator : Copies J P (fun _ => True) operator operator')
    (hB : ∀ ⦃c j f c' j'⦄, operator c j = .ok f c' j' → B c)
    (hstop : ∀ ⦃c d⦄ k, P c d → A c → Misses operator' d k) :
    Copies J P A (Parser.chainLeft operand operator) (Parser.chainLeft operand' operator') :=
  hoperand.bind (fun acc => chainRest hoperand hoperator hB hstop acc) fun _ _ _ _ _ _ =>
    next_of_chainRest hB

end

end Copies

end Dialogue.Parser
