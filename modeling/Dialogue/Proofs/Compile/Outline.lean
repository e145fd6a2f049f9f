import Dialogue.Proofs.Compile.Agreement
import Dialogue.Proofs.Compile.Resolution

/-!
# Outlines that compile

Whether a source compiles, once it is read, depends on its outline alone: the uses of variables in
it must be consistent, and its jumps must lead to blocks of its graph (`compile_eq_ok_iff`).
-/

namespace Dialogue

variable {options : Options} {registry : Grammar.Registry}

/-- The uses of variables in an outline. -/
def Outline.uses (o : Outline) : List Use := o.log.mentions.filterMap Mention.use?

/-- The outline has categories for its variables and blocks for its jumps. -/
structure Outline.Resolves (o : Outline) : Prop where
  /-- The uses of variables are consistent. -/
  consistent : Use.Consistent o.uses
  /-- The jumps lead to blocks. -/
  contained : ∀ n ∈ o.log.lines, ∀ id, n.jump? = some id → o.graph.contains id

/-- The categories are found if and only if the uses are consistent. -/
theorem Facts.exists_resolve_iff (f : Facts) (source : List Char) :
    (∃ T, f.resolve source = .ok T) ↔ Use.Consistent (f.uses.map (·.item)) := by
  have h := f.resolve_spec source
  cases hr : f.resolve source with
  | ok T =>
    rw [hr] at h
    exact iff_of_true ⟨T, rfl⟩ h.1
  | error e =>
    rw [hr] at h
    exact iff_of_false nofun h.1

/-- The check of jumps succeeds if every block that they lead to is there. -/
theorem Facts.checkJumps_iff (f : Facts) (source : List Char) (g : Graph) :
    f.checkJumps source g = .ok () ↔ ∀ id ∈ f.jumps.map (·.item), g.contains id := by
  have hnil : f.unresolved g = [] ↔ ∀ id ∈ f.jumps.map (·.item), g.contains id := by
    simp [unresolved]
  rw [← hnil, checkJumps]
  cases f.unresolved g with
  | nil => exact iff_of_true rfl rfl
  | cons => exact iff_of_false (by rintro ⟨⟩) (List.cons_ne_nil _ _)

/-- A source compiles if it can be read and its outline resolves. -/
theorem compile_eq_ok_iff {source : String} {graph : Graph} :
    compile options registry source = .ok graph ↔
      ∃ script, Script.read options registry source.toList = .ok script ∧
        script.outline.Resolves ∧ graph = script.outline.graph := by
  have hresolves {script : Script}
      (hread : Script.read options registry source.toList = .ok script) :
      script.outline.Resolves ↔ (∃ T, script.facts.resolve source.toList = .ok T) ∧
        script.facts.checkJumps source.toList script.outline.graph = .ok () := by
    have hmatch := Script.facts_match hread
    rw [Facts.exists_resolve_iff, Facts.checkJumps_iff, hmatch.uses, hmatch.jumps]
    refine ⟨fun h => ⟨h.consistent, fun id hid => ?_⟩, fun h => ⟨h.1, fun n hn id hid => ?_⟩⟩
    · obtain ⟨n, hn, hid⟩ := List.mem_filterMap.1 hid
      exact h.contained n hn id hid
    · exact h.2 id (List.mem_filterMap.2 ⟨n, hn, hid⟩)
  rw [compile]
  constructor
  · intro h
    obtain ⟨script, hread, h⟩ := bind_eq_ok.1 h
    obtain ⟨T, hT, h⟩ := bind_eq_ok.1 h
    obtain ⟨_, hjumps, h⟩ := bind_eq_ok.1 h
    cases h
    exact ⟨script, hread, (hresolves hread).2 ⟨⟨T, hT⟩, hjumps⟩, rfl⟩
  · rintro ⟨script, hread, hres, rfl⟩
    obtain ⟨⟨T, hT⟩, hjumps⟩ := (hresolves hread).1 hres
    exact bind_eq_ok.2 ⟨script, hread, bind_eq_ok.2 ⟨T, hT, bind_eq_ok.2 ⟨(), hjumps, rfl⟩⟩⟩

end Dialogue
