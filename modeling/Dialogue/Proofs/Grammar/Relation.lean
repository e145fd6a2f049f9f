import Dialogue.Proofs.Grammar.Arithmetic

/-!
# Replies of relations

What the parts of a relation reply where the replies of the rules in it are known. A reading of
truth values may answer that there is none, and then what it read is read again
(`insteadOf_of_none`): where no truth value is next, where none is behind a comparison sign, or
where an arithmetic sign is behind the last one.
-/

namespace Dialogue

open Dialogue.Parser

namespace Grammar

variable {α : Type} {registry : Registry} {inner : Nested} {c c' c₁ c₂ c₃ : Cursor}
  {f f' f₁ f₂ f₃ : Facts} {k : Category} {e l r : Expr .boolean} {op : CompareOp}
  {behind : List Char}

/-- A reading that answers something is kept. -/
theorem insteadOf_of_some {p : Rule (Option α)} {a : α} (h : p c f = .ok (some a) c' f')
    (q : Rule α) : insteadOf p q c f = .ok a c' f' := by
  rw [insteadOf, h]

/-- A reading that answers nothing is given up for the other one. -/
theorem insteadOf_of_none {p : Rule (Option α)} (h : p c f = .ok none c' f') (q : Rule α) :
    insteadOf p q c f = q c f := by
  rw [insteadOf, h]

/-- Where no two bare variables are compared the other readings are tried. -/
theorem relation_of_misses (h : Misses variableComparison c f) :
    relation registry inner c f = insteadOf (booleanReading registry inner)
      (comparisonOf (sum registry inner) <|> comparisonOf (operand registry inner)) c f :=
  insteadOf_of_none h.optional _

/-! ## Signs -/

/-- The characters that comparison signs start with. -/
def compareMarks : List Char := ['i', '=', '!']

/-- No operator of arithmetic starts like a comparison. -/
theorem not_mem_compareMarks (o : ArithOp) : o.char ∉ compareMarks := by cases o <;> decide

/-- Where an operand ends there is no sign of a comparison. -/
theorem misses_compareSign (h : Ends compareMarks behind c.rest) : Misses compareSign c f := by
  have hws : wellSpelled ["is", "==", "!="] := by decide
  have hsymbol {w : String} (hw : w ∈ ["is", "==", "!="]) :
      Misses (symbol w) (c.skipWhile Text.isSpace) f := by
    refine misses_symbol hws hw fun x hx heq => ?_
    rw [Cursor.rest_skipWhile] at hx
    have hmarks : ["is", "==", "!="].all (·.toList.head?.all (compareMarks.contains ·)) := by decide
    have hmark := (Option.all_eq_true _ _).1 (List.all_eq_true.1 hmarks w hw) x heq
    exact h.lacks x hx (List.contains_iff_mem.1 hmark)
  have his : Misses (keyword "is") (c.skipWhile Text.isSpace) f := hsymbol (w := "is") (by decide)
  have hequal : Misses (tag "==") (c.skipWhile Text.isSpace) f := hsymbol (w := "==") (by decide)
  have hunequal : Misses (tag "!=") (c.skipWhile Text.isSpace) f := hsymbol (w := "!=") (by decide)
  exact misses_lexeme <| (his.bind _).orElse <| (hunequal.bind _).orElse <|
    (his.bind _).orElse (hequal.bind _)

/-- The sign of arithmetic is seen behind its gap. -/
theorem arithmeticSign_eq {gap : Gap} {xs : List Char} (hc : c.Level) {o : ArithOp}
    (h : c.rest = gap.1 ++ o.char :: xs) : ∃ c', arithmeticSign c f = .ok () c' f := by
  have hword : Text.isWord o.char = false := by cases o <;> decide
  have hsign : o.sign ∈ ["+", "-", "*", "/"] := by cases o <;> decide
  have hrest : c.rest = (gap.1 ++ o.sign.toList) ++ xs := by
    rw [h, toList_sign, List.append_assoc]
    rfl
  refine ⟨_, operator_of_mem (by decide) hsign hc hrest ?_ ()⟩
  rw [Text.apart, toList_sign, List.getLast?_singleton, Option.any_some, hword]
  rfl

/-- Where an operand stops there is no sign of arithmetic. -/
theorem misses_arithmeticSign (h : Stops 0 behind c.rest) : Misses arithmeticSign c f := by
  refine misses_operator_of_head (by decide) (fun x hx w hw heq => ?_) ()
  have hsigns : ∀ w ∈ ["+", "-", "*", "/"], ∃ o : ArithOp, w.toList.head? = some o.char := by
    simp only [List.forall_mem_cons]
    exact ⟨⟨.add, rfl⟩, ⟨.subtract, rfl⟩, ⟨.multiply, rfl⟩, ⟨.divide, rfl⟩, nofun⟩
  obtain ⟨o, ho⟩ := hsigns w hw
  exact h.lacks x hx (Option.some.inj (heq.symm.trans ho) ▸ mem_signs.2 (Nat.zero_le _))

/-! ## Comparisons -/

/-- A comparison is read from its left side, its sign and its right side. -/
theorem comparisonOf_eq {p : Rule (Expr k)} {l r : Expr k} (hl : p c f = .ok l c₁ f₁)
    (hop : compareSign c₁ f₁ = .ok op c₂ f₂) (hr : p c₂ f₂ = .ok r c₃ f₃) :
    comparisonOf p c f = .ok (.compare k op l r) c₃ f₃ :=
  (bind_eq hl).trans ((bind_eq hop).trans (bind_eq hr))

/-- A comparison that is answered has a left side, a sign and a right side. -/
theorem of_comparisonOf_eq_ok {p : Rule (Expr k)} (h : comparisonOf p c f = .ok e c' f') :
    ∃ l c₁ f₁ op c₂ f₂ r, p c f = .ok l c₁ f₁ ∧ compareSign c₁ f₁ = .ok op c₂ f₂ ∧
      p c₂ f₂ = .ok r c' f' ∧ e = .compare k op l r := by
  obtain ⟨l, c₁, f₁, hl, h⟩ := of_bind_eq_ok h
  obtain ⟨op, c₂, f₂, hop, h⟩ := of_bind_eq_ok h
  obtain ⟨r, c₃, f₃, hr, h⟩ := of_bind_eq_ok h
  cases h
  exact ⟨l, c₁, f₁, op, c₂, f₂, r, hl, hop, hr, rfl⟩

/-! ## Readings of truth values -/

/-- The answer, unless an arithmetic sign is next. -/
def unlessArithmetic (e : Expr .boolean) : Rule (Option (Expr .boolean)) := do
  return if ← wouldMatch arithmeticSign then none else some e

/-- A reading before the sign of arithmetic is given up. -/
theorem unlessArithmetic_of_ok {u : Unit} (h : arithmeticSign c f = .ok u c' f') :
    unlessArithmetic e c f = .ok none c f :=
  bind_eq (wouldMatch_of_ok h)

/-- A reading with no sign of arithmetic behind it is kept. -/
theorem unlessArithmetic_of_misses (h : Misses arithmeticSign c f) :
    unlessArithmetic e c f = .ok (some e) c f :=
  bind_eq h.wouldMatch

/-- Where there is no truth value there is no reading of one. -/
theorem booleanReading_of_misses (h : Misses (boolean registry inner) c f) :
    booleanReading registry inner c f = .ok none c f :=
  bind_eq h.optional

/-- A truth value that is not compared. -/
theorem booleanReading_alone (hl : boolean registry inner c f = .ok l c₁ f₁)
    (hop : Misses compareSign c₁ f₁) :
    booleanReading registry inner c f = unlessArithmetic l c₁ f₁ :=
  (bind_eq (optional_of_ok hl)).trans (bind_eq hop.optional)

/-- A truth value that is compared with none. -/
theorem booleanReading_half (hl : boolean registry inner c f = .ok l c₁ f₁)
    (hop : compareSign c₁ f₁ = .ok op c₂ f₂) (hr : Misses (boolean registry inner) c₂ f₂) :
    booleanReading registry inner c f = .ok none c₂ f₂ :=
  (bind_eq (optional_of_ok hl)).trans ((bind_eq (optional_of_ok hop)).trans (bind_eq hr.optional))

/-- Two truth values with a sign between them are compared, unless arithmetic follows. -/
theorem booleanReading_compared (hl : boolean registry inner c f = .ok l c₁ f₁)
    (hop : compareSign c₁ f₁ = .ok op c₂ f₂) (hr : boolean registry inner c₂ f₂ = .ok r c₃ f₃) :
    booleanReading registry inner c f = unlessArithmetic (.compare .boolean op l r) c₃ f₃ :=
  (bind_eq (optional_of_ok hl)).trans <| (bind_eq (optional_of_ok hop)).trans <|
    bind_eq (optional_of_ok hr)

/-- A truth value that stands alone is read where neither a comparison sign nor an arithmetic one is
    next. -/
theorem reads_relation {set text : List Char} {uses : Nat → List (Found Use)}
    (hcompare : compareMarks ⊆ set) (harith : signs 0 ⊆ set)
    (hvariables : Refuses (Ends set text) variableComparison text)
    (h : ReadsAs (Ends set text) (boolean registry inner) text e uses) :
    ReadsAs (Ends set text) (relation registry inner) text e uses := by
  intro c f zs hc hrest hzs
  have hbehind : Ends set text (c.skip text.length).rest := by rwa [Cursor.rest_skip_append hrest]
  rw [relation_of_misses (hvariables hc hrest hzs)]
  refine insteadOf_of_some (Eq.trans ?_ (unlessArithmetic_of_misses ?_)) _
  · exact booleanReading_alone (h hc hrest hzs) (misses_compareSign (hbehind.mono hcompare))
  · exact misses_arithmeticSign (hbehind.mono harith)

end Grammar

end Dialogue
