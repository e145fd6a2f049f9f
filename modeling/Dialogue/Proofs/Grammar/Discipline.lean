import Dialogue.Proofs.Grammar.Walk
import Dialogue.Proofs.Parser.Discipline

/-!
# Discipline of the grammar

The rules of the grammar, with all that is nested in them, are disciplined and careful
(`cursor_discipline`): whatever the source holds, it is only cut between two characters while it
is read, and every offset that a rule tells is one of a place ahead of where the rule started.
-/

namespace Dialogue

open Dialogue.Parser
open Cursor (Below)

variable {α : Type}

namespace Grammar

variable {registry : Registry} {inner : Nested} {rule : Nested → Rule α} {o : Cursor} {n : Nat}

/-- A passage below the current line, with all that is nested in it. -/
def passage (registry : Registry) : Rule Outline :=
  below { Nested.none with script := complete registry (script registry) }

/-- The rules of the grammar, with others that are nested in them. -/
inductive IsRule (registry : Registry) : {α : Type} → (Nested → Rule α) → Prop where
  | identifier : IsRule registry fun _ => identifier
  | unreserved : IsRule registry fun _ => unreserved
  | variableName : IsRule registry fun _ => variableName
  | variableOf (k : Category) : IsRule registry fun _ => variableOf k
  | arithmeticSign : IsRule registry fun _ => arithmeticSign
  | call (k : Category) : IsRule registry fun inner => call registry inner k
  | factor : IsRule registry (factor registry)
  | product : IsRule registry (product registry)
  | sum : IsRule registry (sum registry)
  | math : IsRule registry (math registry)
  | escape : IsRule registry fun _ => escape
  | substitution : IsRule registry substitution
  | quoted : IsRule registry quoted
  | quote : IsRule registry quote
  | operand : IsRule registry (operand registry)
  | compareSign : IsRule registry fun _ => compareSign
  | variableComparison : IsRule registry fun _ => variableComparison
  | boolean : IsRule registry (boolean registry)
  | booleanReading : IsRule registry (booleanReading registry)
  | comparison : IsRule registry (comparison registry)
  | simpleComparison : IsRule registry (simpleComparison registry)
  | relation : IsRule registry (relation registry)
  | negation : IsRule registry negation
  | unary : IsRule registry (unary registry)
  | conjunction : IsRule registry (conjunction registry)
  | exclusive : IsRule registry (exclusive registry)
  | disjunction : IsRule registry (disjunction registry)
  | logic : IsRule registry (logic registry)
  | textLine : IsRule registry textLine
  | text : IsRule registry text
  | promptMark : IsRule registry fun _ => promptMark
  | prompt : IsRule registry prompt
  | dialog (mark : Char) : IsRule registry fun inner => dialog inner mark
  | say : IsRule registry say
  | append : IsRule registry append
  | clear : IsRule registry fun _ => clear
  | choose : IsRule registry fun _ => choose
  | bracketed : IsRule registry fun _ => bracketed
  | jump : IsRule registry fun _ => jump
  | wait : IsRule registry fun _ => wait
  | timeUnit : IsRule registry fun _ => timeUnit
  | pause : IsRule registry (pause registry)
  | leave : IsRule registry fun _ => leave
  | node : IsRule registry (node registry)
  | passage : IsRule registry fun _ => passage registry
  | label : IsRule registry label
  | option : IsRule registry option
  | choice : IsRule registry choice
  | line : IsRule registry (line registry)
  | script : IsRule registry (script registry)
  | source : IsRule registry fun _ => source registry

/-- A rule stays within the bound that the nested ones stay in. -/
theorem IsRule.stays (h : IsRule registry rule) (hi : inner.Stay o n) :
    (rule inner).Stays o (n + 1) := by
  have hword {w : String} (hw : w ≠ "") (m : Node) :
      Rule.Stays o (n + 1) ((fun _ => m) <$> keyword w) := (takes_keyword hw).map.keeps.walks
  cases h with
  | identifier => exact takes_identifier.keeps.walks
  | unreserved => exact takes_unreserved.keeps.walks
  | variableName => exact takes_variableName.keeps.walks
  | variableOf k => exact takes_variableOf.keeps.walks
  | arithmeticSign => exact takes_arithmeticSign.keeps.walks
  | call k => exact (walks_call hi).stays
  | factor => exact (walks_factor hi).stays
  | product => exact (walks_product hi).stays
  | sum => exact (walks_sum hi).stays
  | math => exact (walks_sum hi).map.stays
  | escape => exact takes_escape.keeps.walks
  | substitution => exact (walks_substitution hi).stays
  | quoted => exact walks_quoted hi
  | quote => exact (walks_quote hi).stays
  | operand => exact (walks_operand hi).stays
  | compareSign => exact takes_compareSign.keeps.walks
  | variableComparison => exact takes_variableComparison.keeps.walks
  | boolean => exact (walks_boolean hi).stays
  | booleanReading =>
    refine (walks_booleanReading hi).mono fun e c hc => ?_
    cases e with
    | none => exact hc
    | some e => exact below_succ hc
  | comparison => exact (walks_comparison hi).stays
  | simpleComparison => exact (walks_comparison hi).map.stays
  | relation => exact (walks_relation hi).stays
  | negation => exact (walks_negation hi).stays
  | unary => exact (walks_unary hi).stays
  | conjunction => exact (walks_conjunction hi).stays
  | exclusive => exact (walks_exclusive hi).stays
  | disjunction => exact (walks_disjunction hi).stays
  | logic => exact (walks_disjunction hi).map.stays
  | textLine => exact (walks_textLine hi).mono fun _ _ hc => hc.elim below_succ fun h => h.1
  | text => exact walks_text hi
  | promptMark => exact takes_promptMark.keeps.walks
  | prompt => exact (walks_prompt hi).stays
  | dialog mark => exact (walks_dialog hi mark).stays
  | say => exact (walks_dialog hi ':').map.stays
  | append => exact (walks_dialog hi '+').map.stays
  | clear => exact takes_clear.keeps.walks
  | choose => exact hword (by decide) .choose
  | bracketed => exact takes_bracketed.keeps.walks
  | jump => exact takes_jump.keeps.walks
  | wait => exact hword (by decide) .wait
  | timeUnit => exact takes_timeUnit.keeps.walks
  | pause => exact (walks_pause hi).stays
  | leave => exact hword (by decide) .leave
  | node => exact (walks_node hi).stays
  | passage => exact walks_below (walks_complete fun h => (walks_script h).stays)
  | label => exact (walks_label hi).stays
  | option => exact (walks_option hi).mono fun _ _ hc => below_succ hc.2
  | choice => exact (walks_choice hi).stays
  | line => exact (walks_line hi).stays
  | script => exact (walks_script hi).stays
  | source => exact walks_source

/-- A rule is built from leaves if the nested ones are. -/
theorem IsRule.built (h : IsRule registry rule) (hi : inner.Built) : Built Leaf (rule inner) := by
  cases h with
  | identifier => exact built_identifier
  | unreserved => exact built_unreserved
  | variableName => exact built_variableName
  | variableOf k => exact built_variableOf
  | arithmeticSign => exact built_operator () _
  | call k => exact built_call hi
  | factor => exact built_factor hi
  | product => exact built_product hi
  | sum => exact built_sum hi
  | math => exact (built_sum hi).map
  | escape => exact built_escape
  | substitution => exact built_substitution hi
  | quoted => exact built_quoted hi
  | quote => exact built_quote hi
  | operand => exact built_operand hi
  | compareSign => exact built_compareSign
  | variableComparison => exact built_variableComparison
  | boolean => exact built_boolean hi
  | booleanReading => exact built_booleanReading hi
  | comparison => exact built_comparison hi
  | simpleComparison => exact (built_comparison hi).map
  | relation => exact built_relation hi
  | negation => exact built_negation hi
  | unary => exact built_unary hi
  | conjunction => exact built_conjunction hi
  | exclusive => exact built_exclusive hi
  | disjunction => exact built_disjunction hi
  | logic => exact (built_disjunction hi).map
  | textLine => exact built_textLine hi
  | text => exact built_text hi
  | promptMark => exact built_promptMark
  | prompt => exact built_prompt hi
  | dialog mark => exact built_dialog hi mark
  | say => exact (built_dialog hi ':').map
  | append => exact (built_dialog hi '+').map
  | clear => exact built_clear
  | choose => exact (built_keyword _).map
  | bracketed => exact built_bracketed
  | jump => exact built_jump
  | wait => exact (built_keyword _).map
  | timeUnit => exact built_timeUnit
  | pause => exact built_pause hi
  | leave => exact (built_keyword _).map
  | node => exact built_node hi
  | passage => exact built_below (built_complete built_script)
  | label => exact built_label hi
  | option => exact built_option hi
  | choice => exact built_choice hi
  | line => exact built_line hi
  | script => exact built_script hi
  | source => exact built_source

/-- A leaf moves ahead. -/
theorem Leaf.moves {p : Rule α} (h : Leaf p) : p.Moves := by
  intro c f
  cases h with
  | fatalAt i x => trivial
  | missAt i e => trivial
  | declare i id =>
    rw [Rule.declare]
    split
    · trivial
    · exact ⟨.refl c, rfl⟩

/-- A rule of the grammar, with all that is nested in it, is disciplined. -/
theorem IsRule.disciplined (h : IsRule registry rule) : (complete registry rule).Disciplined :=
  .of_walks fun _ _ => walks_complete fun hi => h.stays hi

/-- A rule of the grammar is careful. -/
theorem IsRule.careful (h : IsRule registry rule) : ∃ t : Plan Facts α,
    t.Leaves (fun p => Elementary p ∨ Leaf p) ∧ t.parser = complete registry rule ∧ t.Careful := by
  obtain ⟨t, ht, hp⟩ := built_complete fun hi => h.built hi
  exact ⟨t, ht, hp, .of_moves (t.leaves_mono (fun hl => hl.elim (·.moves) (·.moves)) ht)⟩

/-- What is built from elementary parsers, and every rule of the grammar with all that is nested
    in it, moves ahead in its source, gives the reference back, and tells offsets of places
    ahead. All that is run for it cuts the source between two characters. -/
theorem cursor_discipline (registry : Registry) :
    (∀ {σ α : Type} {t : Plan σ α}, t.Leaves Elementary → t.parser.Disciplined ∧ t.Careful) ∧
      ∀ {α : Type} {rule : Nested → Rule α}, IsRule registry rule →
        (complete registry rule).Disciplined ∧
          ∃ t : Plan Facts α, t.Leaves (fun p => Elementary p ∨ Leaf p) ∧
            t.parser = complete registry rule ∧ t.Careful := by
  refine ⟨fun ht => ⟨Plan.disciplined ht, Plan.careful ht⟩, fun hr => ⟨hr.disciplined, ?_⟩⟩
  exact hr.careful

/-- A quote that is not closed is missed behind a character of two bytes, and what is read over
    one starts behind it. -/
theorem cursor_discipline_accent :
    (complete (fun _ => none) quote (.ofChars ['"', 'é'] 4) .empty).outcome =
        .error (.miss 3 ["closing '\"'"]) ∧ Boundary ['"', 'é'] 3 ∧
      ((Cursor.ofChars ['é', 'y'] 4).skip 1).Cuts 2 := by
  have hquote : (complete (fun _ => none) quote (.ofChars ['"', 'é'] 4) .empty).outcome =
      .error (.miss 3 ["closing '\"'"]) := by rfl
  let t : Plan Unit Char := .bind (.leaf (char 'é')) fun _ => .leaf (char 'x')
  have ht : t.Leaves Elementary := ⟨.satisfy _ _, fun _ => .satisfy _ _⟩
  let c : Cursor := .ofChars ['é', 'y'] 4
  let l : List (Event Unit) := around c () [] (.ok 'é' (c.skip 1) () : Reply Unit Char) ++
    around (c.skip 1) () [] (.miss 2 ["x"] () : Reply Unit Char)
  have hruns : t.Runs c () l (.miss 2 ["x"] ()) := .bind (.leaf rfl) (.leaf rfl)
  have hmem : .start (c.skip 1) () ∈ l := by simp [l, around]
  have hcareful := ((cursor_discipline fun _ => none).1 ht).2 (Cursor.placed_ofChars _ _) hruns hmem
  refine ⟨hquote, ?_, hcareful.2.2.2.1⟩
  exact (((cursor_discipline fun _ => none).2 .quote).1.failure hquote).2.2

end Grammar

end Dialogue
