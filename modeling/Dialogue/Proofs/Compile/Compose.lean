import Mathlib.Data.List.Infix
import Dialogue.Proofs.Compile.Outline
import Dialogue.Proofs.Grammar.Append
import Dialogue.Proofs.Graph.Flattening

/-!
# Sources that are put together

What is compiled from a source that stands before another one is merged with what is compiled from
the other one (`compile_append`). What the parts must not do is undo each other: no id may be
claimed in both, and a variable has one category in all.
-/

namespace Dialogue

open Grammar (Registry)

namespace Outline

variable {o p : Outline}

/-- Two passages use what each of them does. -/
theorem uses_append (o p : Outline) : (o ++ p).uses = o.uses ++ p.uses := by
  rw [uses, log_append, Log.mentions_append, List.filterMap_append]
  rfl

/-- Jumps lead to the blocks they led to. -/
theorem Resolves.append (ho : o.Resolves) (hp : p.Resolves)
    (huses : Use.Consistent (o.uses ++ p.uses)) : (o ++ p).Resolves where
  consistent := by rwa [uses_append]
  contained n hn id hid := by
    rw [log_append, Log.lines_append, List.mem_append] at hn
    rw [graph_append, Graph.contains_merge]
    exact hn.imp (fun hn => ho.contained n hn id hid) fun hn => hp.contained n hn id hid

end Outline

/-- Two sources and the scripts that are read from them, as they may be put together. -/
structure Composable (options : Options) (registry : Registry) (s t : String)
    (first second : Script) : Prop where
  /-- The first source can be read. -/
  read : Script.read options registry s.toList = .ok first
  /-- So can the second one. -/
  read' : Script.read options registry t.toList = .ok second
  /-- The second one may follow the first one. -/
  endable : Grammar.Endable s.toList first.outline
  /-- Its white space is usual. -/
  usual : Layout.Usual t.toList
  /-- Its first line is not indented. -/
  atMargin : Layout.AtMargin t.toList
  /-- No id is claimed in both. -/
  ids : ∀ id ∈ second.facts.ids, id ∉ first.facts.ids
  /-- The uses of variables in both are consistent. -/
  uses : Use.Consistent ((first.facts.uses ++ second.facts.uses).map (·.item))

variable {options : Options} {registry : Registry} {s t : String} {first second : Script}
  {g h : Graph}

/-- Compiling is compositional, as long as no pause of the first source reads like dialogue. -/
theorem compile_append (hst : Composable options registry s t first second)
    (hplus : ∀ c, Starts s.toList c → ¬Grammar.PausesPlus registry c)
    (hg : compile options registry s = .ok g) (hh : compile options registry t = .ok h) :
    compile options registry (s ++ t) = .ok (g.merge h) := by
  obtain ⟨script, hread, hres, rfl⟩ := compile_eq_ok_iff.1 hg
  obtain ⟨script', hread', hres', rfl⟩ := compile_eq_ok_iff.1 hh
  cases hst.read.symm.trans hread
  cases hst.read'.symm.trans hread'
  obtain ⟨c₁, h₁⟩ := Script.read_eq_ok.1 hread
  obtain ⟨c₂, h₂⟩ := Script.read_eq_ok.1 hread'
  obtain ⟨c, f, hboth⟩ :=
    Grammar.source_append hst.endable hplus hst.usual hst.atMargin h₁ h₂ hst.ids
  -- That both are consistent is not enough: a variable may connect their uses.
  have huses : Use.Consistent (first.outline.uses ++ second.outline.uses) := by
    have huses := hst.uses
    rwa [List.map_append, (Script.facts_match hread).uses,
      (Script.facts_match hread').uses] at huses
  refine compile_eq_ok_iff.2 ⟨⟨first.outline ++ second.outline, f⟩, ?_, hres.append hres' huses,
    (Outline.graph_append _ _).symm⟩
  rw [Script.read_eq_ok, String.toList_append]
  exact ⟨c, hboth⟩

/-- It is enough that the word is nowhere followed by a plus sign. -/
theorem not_pausesPlus {source : List Char}
    (h : ∀ cs ∈ source.tails, "pause".toList <+: cs →
      '+' ∉ ((cs.drop 5).dropWhile Text.isBlank).head?)
    {c : Cursor} (hc : Starts source c) : ¬Grammar.PausesPlus registry c := by
  rintro ⟨-, b, xs, hb, hrest⟩
  have hsuffix : c.rest ∈ source.tails := by
    rw [List.mem_tails, ← hc.1]
    exact List.suffix_append _ _
  refine h c.rest hsuffix ⟨b ++ '+' :: xs, by rw [hrest, List.append_assoc]⟩ ?_
  have hdrop : c.rest.drop 5 = b ++ '+' :: xs := by
    rw [hrest, List.append_assoc]
    rfl
  rw [hdrop, List.dropWhile_append_of_pos hb, List.dropWhile_cons_of_neg (by decide)]
  rfl

/-- A script with a label, a jump and a pause. -/
def firstSample : String :=
  "label [a]\n  ann: Hi \x7bx + 1\x7d,\n    you\n\n  jump a\npause 3 * x s\n \n"

/-- A script with a choice that may stand behind it. -/
def secondSample : String := "\nchoice\n  > Go\n    pause f(x) s\n+ Bye \x7bb is c\x7d"

/-- A script with a label and one with a choice are compiled one after the other. -/
theorem compile_append_samples :
    ∃ first second g h,
      Composable {} sampleBindings.signature? firstSample secondSample first second ∧
      (∀ c, Starts firstSample.toList c → ¬Grammar.PausesPlus sampleBindings.signature? c) ∧
      compile {} sampleBindings.signature? firstSample = .ok g ∧
      compile {} sampleBindings.signature? secondSample = .ok h ∧
      compile {} sampleBindings.signature? (firstSample ++ secondSample) = .ok (g.merge h) := by
  have hfirst : (Script.read {} sampleBindings.signature? firstSample.toList).toOption.map
      (fun script => (script.facts.ids, script.facts.uses.map (·.item))) =
        some (["a"], [.typed "x" .number, .typed "x" .number]) := by
    decide +kernel
  have hsecond : (Script.read {} sampleBindings.signature? secondSample.toList).toOption.map
      (fun script => (script.facts.ids, script.facts.uses.map (·.item))) =
        some ([Grammar.promptId "Go"], [.typed "x" .number, .linked "b" "c"]) := by
    decide +kernel
  have hg : (compile {} sampleBindings.signature? firstSample).toOption.isSome := by
    decide +kernel
  have hh : (compile {} sampleBindings.signature? secondSample).toOption.isSome := by
    decide +kernel
  obtain ⟨first, hread, hfirst⟩ := Option.map_eq_some_iff.1 hfirst
  obtain ⟨second, hread', hsecond⟩ := Option.map_eq_some_iff.1 hsecond
  obtain ⟨g, hg⟩ := Option.isSome_iff_exists.1 hg
  obtain ⟨h, hh⟩ := Option.isSome_iff_exists.1 hh
  obtain ⟨hids, huses⟩ := Prod.mk.inj hfirst
  obtain ⟨hids', huses'⟩ := Prod.mk.inj hsecond
  have hst : Composable {} sampleBindings.signature? firstSample secondSample first second := {
    read := eq_ok_of_toOption hread
    read' := eq_ok_of_toOption hread'
    endable := {
      usual := by decide +kernel
      atMargin := by decide +kernel
      ended := ⟨'\n', by decide +kernel, rfl⟩
      said := first.outline.not_endsIn_dangling (by decide +kernel) }
    usual := by decide +kernel
    atMargin := by decide +kernel
    ids := by
      rw [hids, hids']
      decide +kernel
    uses := by
      rw [List.map_append, huses, huses']
      intro m n j k hm hn _
      simp_all }
  have hplus : ∀ c, Starts firstSample.toList c →
      ¬Grammar.PausesPlus sampleBindings.signature? c := fun c => not_pausesPlus (by decide +kernel)
  have hg := eq_ok_of_toOption hg
  have hh := eq_ok_of_toOption hh
  exact ⟨first, second, g, h, hst, hplus, hg, hh, compile_append hst hplus hg hh⟩

/-- A binding that takes a text. -/
def textBindings : Bindings :=
  .ofList [("f", { signature := ⟨[.text], .number⟩, run := fun _ => .number 1 })]

/-- A pause that reads like dialogue up to its end, where a substitution is open. -/
def plusSample : String := "pause +3 * f(\"\\\x7b\") s\n"

/-- A line of dialogue that closes it. -/
def closingSample : String := "a: hi \"\x7d there\n"

/-- A pause of an amount that starts with a plus sign may be dialogue where the source goes on. -/
theorem compile_append_plus_ne :
    ∃ first second g h,
      Composable {} textBindings.signature? plusSample closingSample first second ∧
      compile {} textBindings.signature? plusSample = .ok g ∧
      compile {} textBindings.signature? closingSample = .ok h ∧
      compile {} textBindings.signature? (plusSample ++ closingSample) ≠ .ok (g.merge h) := by
  have hfirst : (Script.read {} textBindings.signature? plusSample.toList).toOption.map
      (fun script => (script.facts.ids, script.facts.uses.map (·.item))) = some ([], []) := by
    decide +kernel
  have hsecond : (Script.read {} textBindings.signature? closingSample.toList).toOption.map
      (fun script => (script.facts.ids, script.facts.uses.map (·.item))) = some ([], []) := by
    decide +kernel
  have hg : (compile {} textBindings.signature? plusSample).toOption.map
      (fun g => (g.block Graph.main).length) = some 1 := by
    decide +kernel
  have hh : (compile {} textBindings.signature? closingSample).toOption.map
      (fun h => (h.block Graph.main).length) = some 1 := by
    decide +kernel
  have hboth : (compile {} textBindings.signature? (plusSample ++ closingSample)).toOption.map
      (fun g => (g.block Graph.main).length) = some 1 := by
    decide +kernel
  obtain ⟨first, hread, hfirst⟩ := Option.map_eq_some_iff.1 hfirst
  obtain ⟨second, hread', hsecond⟩ := Option.map_eq_some_iff.1 hsecond
  obtain ⟨g, hg, hlength⟩ := Option.map_eq_some_iff.1 hg
  obtain ⟨h, hh, hlength'⟩ := Option.map_eq_some_iff.1 hh
  obtain ⟨hids, huses⟩ := Prod.mk.inj hfirst
  obtain ⟨-, huses'⟩ := Prod.mk.inj hsecond
  have hst : Composable {} textBindings.signature? plusSample closingSample first second := {
    read := eq_ok_of_toOption hread
    read' := eq_ok_of_toOption hread'
    endable := {
      usual := by decide +kernel
      atMargin := by decide +kernel
      ended := ⟨'\n', by decide +kernel, rfl⟩
      said := first.outline.not_endsIn_dangling (by decide +kernel) }
    usual := by decide +kernel
    atMargin := by decide +kernel
    ids := by
      rw [hids]
      exact fun _ _ => List.not_mem_nil
    uses := by
      rw [List.map_append, huses, huses']
      exact fun _ _ _ _ h => absurd h List.not_mem_nil }
  refine ⟨first, second, g, h, hst, eq_ok_of_toOption hg, eq_ok_of_toOption hh, fun hmerge => ?_⟩
  -- The two lines have become one.
  rw [hmerge] at hboth
  have hone : ((g.merge h).block Graph.main).length = 1 := Option.some.inj hboth
  rw [Graph.block_merge, List.length_append, hlength, hlength'] at hone
  omega

end Dialogue
