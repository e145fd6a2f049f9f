import Dialogue.Proofs.Parser.Path
import Dialogue.Proofs.Parser.Reach
import Dialogue.Proofs.Parser.Rewind

/-!
# Journals

A plan whose leaves write, and do nothing else with the journal, is a writer
(`Plan.pure_writer`): what it answers does not depend on the entries from before, none of which
is ever lost, and where it answers, it has added the entries of its accepted path.
-/

namespace Dialogue

variable {ε α : Type}

/-- From one place to another the journal only gets longer. -/
theorem reach_extends :
    Reach (fun _ j _ j' => j <+: j' : Cursor → List ε → Cursor → List ε → Prop)
      fun _ j _ j' => j <+: j' where
  refl _ j := List.prefix_refl j
  trans h h' := h.trans h'
  skip _ _ j := List.prefix_refl j
  stay h := h
  withReference _ h := h
  start h := h
  nested h h' := h.trans h'
  here _ j := List.prefix_refl j

/-- What is there already stays at the start of the journal. -/
theorem Parser.Writes.reaches {p : Parser (List ε) α} (h : p.Writes) :
    p.Reaches fun _ j _ j' => j <+: j' := by
  intro c j
  rw [h c j]
  cases p c [] with
  | ok a c' w => exact List.prefix_append j w
  | miss i e w => trivial
  | fatal i x w => trivial

/-- A note of one entry. -/
def Parser.note (e : ε) : Parser (List ε) Unit := Parser.record (· ++ [e])

/-- To note an entry writes it. -/
theorem Parser.Writes.note (e : ε) : (Parser.note e).Writes := fun _ _ => rfl

/-- A plan whose leaves write is a writer: the value, the cursor and the failure do not depend on
    the journal, which keeps all that it had, also where parts of the plan are started; where
    the plan answers, the entries of its accepted path are added, in order. It does not
    matter whether what is given up is forgotten by going back to a mark. -/
theorem Plan.pure_writer {t : Plan (List ε) α} (ht : t.Leaves Parser.Writes) (c : Cursor) :
    (∀ j, (t.parser c j).outcome = (t.parser c []).outcome ∧
        (t.parser c j).journal = j ++ (t.parser c []).journal) ∧
      (∀ j a c' j', t.parser c j = .ok a c' j' ↔ ∃ w, t.Path c a c' w ∧ j' = j ++ w) ∧
      (∀ j l r, t.Runs c j l r → ∀ c' j', Event.start c' j' ∈ l → j <+: j') ∧
      t.rewinding = t.parser := by
  refine ⟨fun j => ?_, fun j a c' j' => ⟨fun h => ?_, ?_⟩, fun j l r h c' j' hl => ?_,
    t.rewinding_eq ht⟩
  · rw [t.writes ht c j]
    exact ⟨Reply.outcome_onto j _, Reply.journal_onto j _⟩
  · obtain ⟨w, hw, rfl⟩ := (t.writes ht).exists_entries h
    exact ⟨w, t.traced ht hw, rfl⟩
  · rintro ⟨w, hw, rfl⟩
    exact (Plan.path_iff ht).1 hw j
  · have hreached := h.reached reach_extends (t.leaves_mono Parser.Writes.reaches ht)
    exact hreached.events _ hl

/-- Notes one entry and misses, which is given up, and notes another one. -/
def Plan.secondThoughts : Plan (List Nat) Unit :=
  .bind (.optional (.bind (.leaf (Parser.note 1)) fun _ => .leaf (Parser.expected "b" (α := Unit))))
    fun _ => .leaf (Parser.note 2)

/-- An alternative that was given up has left nothing. -/
theorem Plan.pure_writer_secondThoughts :
    secondThoughts.parser (.ofChars ['a'] 4) [7] = .ok () (.ofChars ['a'] 4) [7, 2] := by
  have hmiss : Parser.Writes (Parser.expected "b" : Parser (List Nat) Unit) :=
    fun _ j => congrArg (Reply.miss _ _) (List.append_nil j).symm
  have ht : secondThoughts.Leaves Parser.Writes := ⟨⟨.note 1, fun _ => hmiss⟩, fun _ => .note 2⟩
  refine ((Plan.pure_writer ht (.ofChars ['a'] 4)).2.1 [7] () _ [7, 2]).2 ⟨[2], ?_, rfl⟩
  exact .bind (w := []) (.optional_none ⟨_, _, _, rfl⟩) (.leaf rfl)

end Dialogue
