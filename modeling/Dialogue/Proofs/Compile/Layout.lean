import Dialogue.Proofs.Compile.Outline
import Dialogue.Proofs.Grammar.Layout
import Dialogue.Proofs.Grammar.Source

/-!
# Layout does not matter

A source without quotes and the one with plain layout are read alike, so they compile to the same
graph or not at all (`compile_plain`). Between quotes line breaks and indentation are part of the
text.
-/

namespace Dialogue

open Grammar

variable {options : Options} {registry : Registry}

/-- A source is read as the one with plain layout is. -/
theorem source_plain {c d : Cursor} {f : Facts} (h : Layout.Starts c d) (o : Outline) :
    (∃ c' f', source registry c f = .ok o c' f') ↔ ∃ d' g', source registry d f = .ok o d' g' := by
  have hinside : Layout.Inside c.first d.first :=
    ((Layout.skipSpaces _ c d rfl).2 h).withReference _ _
  by_cases hend : c.first.rest = []
  · rw [source_of_end hend, source_of_end (hinside.nil.1 hend)]
    constructor
    · rintro ⟨_, _, ⟨⟩⟩
      exact ⟨_, _, rfl⟩
    · rintro ⟨_, _, ⟨⟩⟩
      exact ⟨_, _, rfl⟩
  have hR : layout c.first.column [] c.first d.first :=
    ⟨hinside, ⟨rfl, (hinside.column hend).symm⟩, nofun⟩
  have hm := c.first.column_pos
  constructor
  · rintro ⟨c', f', hc⟩
    exact source_of_levelled levelled_layout hm hR rfl hc
  · rintro ⟨d', g', hd⟩
    exact source_of_levelled levelled_layout.swap hm hR rfl hd

/-- A source without quotes has the outline of the one with plain layout. -/
theorem read_plain (options : Options) (registry : Registry) {source : List Char}
    (hquote : '"' ∉ source) (o : Outline) :
    (∃ f, Script.read options registry source = .ok ⟨o, f⟩) ↔
      ∃ f, Script.read options registry (Layout.plain (max options.tabSize 1) source) =
        .ok ⟨o, f⟩ := by
  have hstarts : Layout.Starts (.ofChars source options.tabSize)
      (.ofChars (Layout.plain (max options.tabSize 1) source) options.tabSize) :=
    ⟨rfl, rfl, rfl, rfl, hquote⟩
  simp only [Script.read_eq_ok]
  rw [exists_comm, source_plain hstarts, exists_comm]

/-- Sources of one outline compile to the same graph or not at all. -/
theorem compile_congr {s t : String}
    (h : ∀ o, (∃ f, Script.read options registry s.toList = .ok ⟨o, f⟩) ↔
      ∃ f, Script.read options registry t.toList = .ok ⟨o, f⟩) :
    (compile options registry s).toOption = (compile options registry t).toOption := by
  refine Option.ext fun graph => ?_
  have htoOption {x : Except CompileError Graph} : x.toOption = some graph ↔ x = .ok graph := by
    cases x <;> simp [Except.toOption]
  rw [htoOption, htoOption, compile_eq_ok_iff, compile_eq_ok_iff]
  constructor
  · rintro ⟨⟨o, f⟩, hs, hres, rfl⟩
    obtain ⟨f', ht⟩ := (h o).1 ⟨f, hs⟩
    exact ⟨⟨o, f'⟩, ht, hres, rfl⟩
  · rintro ⟨⟨o, f⟩, ht, hres, rfl⟩
    obtain ⟨f', hs⟩ := (h o).2 ⟨f, ht⟩
    exact ⟨⟨o, f'⟩, hs, hres, rfl⟩

/-- Whether a source without quotes compiles, and what it compiles to, does not depend on its
    layout. -/
theorem compile_plain (options : Options) (registry : Registry) (source : String)
    (hquote : '"' ∉ source.toList) :
    (compile options registry source).toOption = (compile options registry
      (String.ofList (Layout.plain (max options.tabSize 1) source.toList))).toOption := by
  refine compile_congr fun o => ?_
  rw [String.toList_ofList]
  exact read_plain options registry hquote o

/-- A script with line breaks of all kinds, tabs, and blank lines. -/
def unevenSample : String :=
  "\n \tlabel [a]\r\n\n\t\tann: Hi \x7bx +\r\n\r\t\t\t1\x7d\r\t \r\n       jump a\r"

/-- A source with tabs and blank lines is compiled like its plain layout. -/
theorem compile_plain_sample :
    '"' ∉ unevenSample.toList ∧
      String.ofList (Layout.plain 4 unevenSample.toList) =
        "   label [a]\n       ann: Hi \x7bx +\n           1\x7d\n       jump a\n" ∧
      (compile {} sampleBindings.signature? unevenSample).toOption.isSome ∧
      (compile {} sampleBindings.signature? unevenSample).toOption =
        (compile {} sampleBindings.signature?
          (String.ofList (Layout.plain 4 unevenSample.toList))).toOption :=
  ⟨by decide, by decide, by decide +kernel,
    compile_plain {} sampleBindings.signature? unevenSample (by decide)⟩

end Dialogue
