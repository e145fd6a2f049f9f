import Dialogue.Proofs.Compile.Layout

/-!
# Blank lines

Blank lines may stand wherever a line starts (`compile_insert`), between statements as in the middle
of a text: they are no part of the layout of a source (`Layout.plain_insert`). A line of other white
space is not blank, and does not go unnoticed (`compile_insert_space`).
-/

namespace Dialogue

open Grammar

/-- Blank lines that are put where a line of a source without quotes starts change neither whether
    it compiles nor what it compiles to. -/
theorem compile_insert (options : Options) (registry : Registry) {before blank after : String}
    (hquote : '"' ∉ (before ++ after).toList)
    (hstart : ∀ x ∈ before.toList.getLast?, Text.isBreak x)
    (hblank : ∀ x ∈ blank.toList, Text.isLayout x)
    (hended : ∀ x ∈ blank.toList.getLast?, Text.isBreak x) :
    (compile options registry (before ++ blank ++ after)).toOption =
      (compile options registry (before ++ after)).toOption := by
  -- No blank line has a quote, so both sources are read like their plain forms, and these are one.
  have hquote' : '"' ∉ (before ++ blank ++ after).toList := by
    have hnot : '"' ∉ blank.toList := fun h => absurd (hblank _ h) (by decide)
    simp only [String.toList_append, List.mem_append, not_or] at hquote ⊢
    exact ⟨⟨hquote.1, hnot⟩, hquote.2⟩
  refine compile_congr fun o => ?_
  rw [read_plain options registry hquote', read_plain options registry hquote]
  simp only [String.toList_append, Layout.plain_insert hstart hblank hended]

/-- Between the lines of a text, which goes on behind them. -/
theorem compile_insert_greeting :
    (compile {} (fun _ => none) ("ann: Hi\r" ++ " \t\r\n\n" ++ "  there\nwait\n")).toOption.isSome ∧
      (compile {} (fun _ => none) ("ann: Hi\r" ++ " \t\r\n\n" ++ "  there\nwait\n")).toOption =
        (compile {} (fun _ => none) ("ann: Hi\r" ++ "  there\nwait\n")).toOption :=
  ⟨by decide +kernel, compile_insert {} (fun _ => none) (by decide)
    ((Option.all_eq_true _ _).1 (by decide)) (List.all_eq_true.1 (by decide))
    ((Option.all_eq_true _ _).1 (by decide))⟩

/-- A line of a no-break space between two statements is taken for a statement. -/
theorem compile_insert_space :
    Text.isSpace '\u00a0' ∧ ¬ Text.isBreak '\u00a0' ∧
      (compile {} (fun _ => none) ("wait\n" ++ "wait\n")).toOption.isSome ∧
      (compile {} (fun _ => none) ("wait\n" ++ "\u00a0\n" ++ "wait\n")).toOption = none :=
  ⟨by decide, by decide, by decide +kernel, by decide +kernel⟩

end Dialogue
