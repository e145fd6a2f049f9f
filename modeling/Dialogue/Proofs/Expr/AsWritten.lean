import Dialogue.Proofs.Expr.Concatenation
import Dialogue.Proofs.Expr.Rendered

/-!
# Expressions as they are written

The text of an expression does not tell everything. It leaves out what category a variable must
have if nothing but a variable is put into a text or compared with another one, it writes infinity
and what is not a number with words that variables may have for their names (`Number.words`), and it
writes that one is not the other like that one is the negation of the other. All this is left out of
an expression *as it is written* (`Expr.asWritten`), which has the same text
(`Expr.text_asWritten`).

Nothing else is lost. A form is read back as an expression as it is written (`Form.read`), with the
categories that bindings tell (`Expr.readsBack`), and its words as the only numbers that are written
like them; so texts in normal form whose names are names, whose calls are those of bindings, and
whose characters stand for themselves are the same as they are written if they have the same text
(`Expr.text_eq_iff`).
-/

namespace Dialogue

namespace Expr

/-- An expression that is put into a text. A variable alone does not show what it must hold. -/
def shown : {k : Category} → Expr k → Expr .text
  | _, .variable name => .interpolate name
  | .number, e => .ofNumber e
  | .boolean, e => .ofBoolean e
  | .text, e => e

/-- The variable that an operand is, if nothing shows what it must hold. -/
def lone? : {k : Category} → Expr k → Option String
  | .text, _ => none
  | _, .variable name => some name
  | _, _ => none

/-- Two operands compared. Variables alone do not show what they must hold. -/
def comparing {k : Category} (op : CompareOp) (l r : Expr k) : Expr .boolean :=
  match l.lone?, r.lone? with
  | some x, some y => .compareVariables op x y
  | _, _ => .compare k op l r

/-- Two operands compared. It does not show whether one is not the other, or is its negation. -/
def compared : CompareOp → {k : Category} → (l r : Expr k) → Expr .boolean
  | .is, .boolean, l, .not r => comparing .isNot l r
  | op, _, l, r => comparing op l r

end Expr

mutual

/-- An expression that says no more than its text. -/
def Expr.asWritten : {k : Category} → Expr k → Expr k
  | .number, .literal v =>
    if Number.text v ∈ Number.words then .variable (Number.text v) else .literal v
  | _, .literal v => .literal v
  | .text, .variable name => .interpolate name
  | _, .variable name => .variable name
  | _, .call name args => .call name args.asWritten
  | _, .not e => .not e.asWritten
  | _, .logic op l r => .logic op l.asWritten r.asWritten
  | _, .compare _ op l r => .compared op l.asWritten r.asWritten
  | _, .compareVariables op l r => .compareVariables op l r
  | _, .arith op l r => .arith op l.asWritten r.asWritten
  | _, .concat l r => .concat l.asWritten r.asWritten
  | _, .ofNumber e => e.asWritten.shown
  | _, .ofBoolean e => e.asWritten.shown
  | _, .interpolate name => .interpolate name

/-- Arguments that say no more than their text. -/
def Args.asWritten : Args → Args
  | .nil => .nil
  | .cons e rest => .cons e.asWritten rest.asWritten

end

/-! ## The text that is written -/

namespace Expr

/-- A number that is put into a text is written in braces. -/
theorem text_shown_number (e : Expr .number) : e.shown.text = braced e.text := by
  cases e <;> rfl

/-- A truth value that is put into a text is written in braces. -/
theorem text_shown_boolean (e : Expr .boolean) : e.shown.text = braced e.text := by
  cases e <;> rfl

/-- A lone variable is written as an operand by its name. -/
theorem operandText_of_lone? {k : Category} {e : Expr k} {name : String}
    (h : e.lone? = some name) : e.operandText = name := by
  cases k with
  | text => cases h
  | boolean | number => cases e <;> cases h; rfl

/-- A comparison of variables by name is written like any other one. -/
theorem text_comparing (op : CompareOp) {k : Category} (l r : Expr k) :
    (comparing op l r).text = parenthesized l.operandText op.word r.operandText := by
  rw [comparing]
  split
  · rename_i hl hr
    rw [operandText_of_lone? hl, operandText_of_lone? hr]
    rfl
  · rfl

/-- A comparison whose operands are told apart is written like any other one. -/
theorem text_compared (op : CompareOp) {k : Category} (l r : Expr k) :
    (compared op l r).text = parenthesized l.operandText op.word r.operandText := by
  rw [compared.eq_def]
  split
  · rw [text_comparing]
    simp [← String.toList_inj, toList_parenthesized, operandText, operandOf, text, CompareOp.word]
  · exact text_comparing _ _ _

end Expr

mutual

/-- An expression as it is written has the same text. -/
theorem Expr.text_asWritten : {k : Category} → (e : Expr k) → e.asWritten.text = e.text
  | .boolean, .literal _ | .text, .literal _ => rfl
  | .number, .literal v => by
    rw [Expr.asWritten]
    split <;> rfl
  | .boolean, .variable _ | .number, .variable _ | .text, .variable _ => rfl
  | _, .call _ args => by
    rw [Expr.asWritten, Expr.text, Expr.text, args.texts_asWritten]
  | _, .not e => by
    rw [Expr.asWritten, Expr.text, Expr.text, e.text_asWritten]
  | _, .logic _ l r => by
    rw [Expr.asWritten, Expr.text, Expr.text, l.text_asWritten, r.text_asWritten]
  | _, .compare _ op l r => by
    rw [Expr.asWritten, Expr.text_compared, Expr.text, Expr.operandText, Expr.operandText,
      l.text_asWritten, r.text_asWritten]
  | _, .compareVariables _ _ _ => rfl
  | _, .arith _ l r => by
    rw [Expr.asWritten, Expr.text, Expr.text, l.text_asWritten, r.text_asWritten]
  | _, .concat l r => by
    rw [Expr.asWritten, Expr.text, Expr.text, l.text_asWritten, r.text_asWritten]
  | _, .ofNumber e => by
    rw [Expr.asWritten, Expr.text_shown_number, Expr.text, e.text_asWritten]
  | _, .ofBoolean e => by
    rw [Expr.asWritten, Expr.text_shown_boolean, Expr.text, e.text_asWritten]
  | _, .interpolate _ => rfl

/-- Arguments have the same texts as they are written. -/
theorem Args.texts_asWritten : (args : Args) → args.asWritten.texts = args.texts
  | .nil => rfl
  | .cons e rest => by
    rw [Args.asWritten, Args.texts, Args.texts, e.text_asWritten, rest.texts_asWritten]

end

/-! ## Reading a form back -/

open Classical in
/-- The number that a word is written for, unless a variable may be named like it. -/
noncomputable def Number.ofWord? (w : String) : Option Float :=
  if h : w ∉ words ∧ ∃ v, text v = w then some h.2.choose else none

/-- A word stands for the only number that is written like it. -/
theorem Number.ofWord?_text {v : Float} (h : text v ∉ words) : ofWord? (text v) = some v := by
  have hword : text v ∉ words ∧ ∃ u, text u = text v := ⟨h, v, rfl⟩
  rw [ofWord?, dif_pos hword, text_injective hword.2.choose_spec]

/-- A word that shows no category: it stands for no truth value and for no number. -/
structure IsBare (w : String) : Prop where
  /-- It is no truth value. -/
  not_mem_truths : w ∉ truths
  /-- It is no number. -/
  not_number : Number.ofWord? w = none

/-- A name is written like a variable. -/
theorem IsName.bare {w : String} (h : IsName w) : IsBare w := by
  refine ⟨h.not_mem_truths, dif_neg ?_⟩
  rintro ⟨hwords, v, rfl⟩
  exact hwords (Number.text_mem_words v h)

/-- The words for infinity and for what is not a number are written like a variable. -/
theorem Number.bare_text {v : Float} (h : text v ∈ words) : IsBare (text v) :=
  ⟨text_not_mem_truths v, dif_neg fun hword => hword.1 h⟩

/-- The category that a form shows, if it shows one. -/
noncomputable def Form.category? (registry : String → Option Signature) : Form → Option Category
  | .word w => if w ∈ truths then some .boolean else (Number.ofWord? w).map fun _ => .number
  | .call name _ => (registry name).map (·.result)
  | .not _ | .joined (.logic _) _ _ | .joined .is _ _ => some .boolean
  | .joined (.arith _) _ _ => some .number
  | .quote _ => some .text

/-- The category of two forms that are compared. Two variables are read like numbers. -/
noncomputable def Form.sharedCategory (registry : String → Option Signature) (l r : Form) :
    Category :=
  ((l.category? registry).or (r.category? registry)).getD .number

mutual

/-- The expression of a category that a form is written for. -/
noncomputable def Form.read (registry : String → Option Signature) : Form → (k : Category) → Expr k
  | .word w, .boolean => if w ∈ truths then .literal (decide (w = "true")) else .variable w
  | .word w, .number => (Number.ofWord? w).elim (.variable w) (Expr.literal (k := .number))
  | .word w, .text => .variable w
  | .call name args, _ =>
    .call name (args.read registry ((registry name).elim [] (·.params)))
  | .not f, .boolean => .not (f.read registry .boolean)
  | .joined (.logic op) l r, .boolean =>
    .logic op (l.read registry .boolean) (r.read registry .boolean)
  | .joined .is l (.not r), .boolean =>
    let k := l.sharedCategory registry r
    .comparing .isNot (l.read registry k) (r.read registry k)
  | .joined .is l r, .boolean =>
    let k := l.sharedCategory registry r
    .comparing .is (l.read registry k) (r.read registry k)
  | .joined (.arith op) l r, .number =>
    .arith op (l.read registry .number) (r.read registry .number)
  | .quote t, .text => .chain (t.read registry)
  | _, _ => .variable ""

/-- The arguments of categories that forms are written for. -/
noncomputable def Forms.read (registry : String → Option Signature) : Forms → List Category → Args
  | .cons f rest, k :: ks => .cons (f.read registry k) (rest.read registry ks)
  | _, _ => .nil

/-- The parts of a text that pieces are written for. -/
noncomputable def Pieces.read (registry : String → Option Signature) : Pieces → List (Expr .text)
  | .nil => []
  | .char x rest =>
    Expr.glue (.literal (k := .text) (String.singleton x)) (rest.read registry)
  | .braced f rest =>
    (f.read registry ((f.category? registry).getD .number)).shown :: rest.read registry

end

namespace Expr

variable {registry : String → Option Signature} {k : Category}

/-- A form shows the category of its expression, unless it is a word that may be a variable. -/
theorem category?_form (e : Expr k) (h : Mentions registry e.mentions) :
    e.form.category? registry = some k ∨ k ≠ .text ∧ ∃ w, IsBare w ∧ e.form = .word w ∧
      e.asWritten = .variable w := by
  have hvariable {name : String} (hname : ∀ w ∈ [name], IsName w) : IsBare name :=
    (hname name (List.mem_singleton_self name)).bare
  cases e with
  | literal v =>
    cases k with
    | boolean => exact .inl (by cases v <;> rfl)
    | number =>
      by_cases hwords : Number.text v ∈ Number.words
      · exact .inr ⟨nofun, _, Number.bare_text hwords, rfl, if_pos hwords⟩
      · refine .inl ((if_neg (Number.text_not_mem_truths v)).trans ?_)
        exact congrArg (Option.map fun _ => Category.number) (Number.ofWord?_text hwords)
    | text => exact .inl rfl
  | «variable» name =>
    have hname := hvariable (mentions_cons.1 h).1.2
    cases k with
    | boolean | number => exact .inr ⟨nofun, name, hname, rfl, rfl⟩
    | text => exact .inl rfl
  | call name args =>
    have hfits : registry name = some ⟨args.categories, k⟩ := (mentions_cons.1 h).1.1
    cases k with
    | boolean | number => exact .inl (congrArg (Option.map Signature.result) hfits)
    | text => exact .inl rfl
  | compare j op l r => cases op <;> exact .inl rfl
  | compareVariables op l r => cases op <;> exact .inl rfl
  | _ => exact .inl rfl

end Expr

/-- A word that shows no category is read as a variable. -/
theorem IsBare.read_number {registry : String → Option Signature} {w : String} (h : IsBare w) :
    (Form.word w).read registry .number = .variable w := by
  rw [Form.read, h.not_number]
  rfl

/-- What is written like a variable does not tell its category. -/
theorem IsBare.category?_eq {registry : String → Option Signature} {w : String} (h : IsBare w) :
    (Form.word w).category? registry = none := by
  rw [Form.category?, if_neg h.not_mem_truths, h.not_number]
  rfl

/-! ### Parts of texts -/

namespace Expr

/-- A number that is put into a text is one part of it, and not written out. -/
theorem shown_isPart_number (e : Expr .number) : ¬ e.shown.isConcat ∧ e.shown.literal? = none := by
  cases e <;> exact ⟨nofun, rfl⟩

/-- A truth value that is put into a text is one part of it, and not written out. -/
theorem shown_isPart_boolean (e : Expr .boolean) :
    ¬ e.shown.isConcat ∧ e.shown.literal? = none := by
  cases e <;> exact ⟨nofun, rfl⟩

/-- Texts that are written out stay so. -/
theorem literal?_asWritten (e : Expr .text) : e.asWritten.literal? = e.literal? := by
  cases e with
  | ofNumber e => exact (shown_isPart_number _).2
  | ofBoolean e => exact (shown_isPart_boolean _).2
  | _ => rfl

/-- Concatenations stay so. -/
theorem isConcat_asWritten (e : Expr .text) : e.asWritten.isConcat = e.isConcat := by
  cases e with
  | ofNumber e => exact Bool.eq_false_iff.2 (shown_isPart_number _).1
  | ofBoolean e => exact Bool.eq_false_iff.2 (shown_isPart_boolean _).1
  | _ => rfl

/-- The parts of a text as it is written are those of the text, as they are written. -/
theorem parts_asWritten (e : Expr .text) (rest : List (Expr .text)) :
    e.asWritten.parts (rest.map asWritten) = (e.parts rest).map asWritten := by
  have hpart {e : Expr .text} (he : ¬ e.isConcat) :
      e.asWritten.parts (rest.map asWritten) = (e.parts rest).map asWritten := by
    rw [parts_of_not_isConcat (by rwa [isConcat_asWritten]), parts_of_not_isConcat he,
      List.map_cons]
  match e with
  | .concat l r => rw [asWritten, parts, parts, parts_asWritten r rest, parts_asWritten l]
  | .literal _ | .variable _ | .call _ _ | .ofNumber _ | .ofBoolean _ | .interpolate _ =>
    exact hpart Bool.false_ne_true

/-- A literal before a part that is none. -/
theorem glue_literal_cons {s : String} (hs : s ≠ "") {d : Expr .text} (hd : d.literal? = none)
    (rest : List (Expr .text)) :
    glue (literal (k := .text) s) (d :: rest) = literal (k := .text) s :: d :: rest := by
  cases d <;> simp_all [glue, literal?]

/-- Gluing can be done before or after. -/
theorem glue_asWritten (e : Expr .text) (rest : List (Expr .text)) :
    glue e.asWritten (rest.map asWritten) = (glue e rest).map asWritten := by
  cases hlit : e.literal? with
  | none => rw [glue, glue, literal?_asWritten, hlit, List.map_cons]
  | some s =>
    obtain rfl := eq_literal_of_literal? hlit
    change glue (literal (k := .text) s) _ = _
    by_cases hs : s = ""
    · subst hs
      simp [glue, literal?]
    · cases rest with
      | nil => simp [glue, literal?, hs, asWritten]
      | cons d rest =>
        cases hd : d.literal? with
        | none =>
          rw [List.map_cons, glue_literal_cons hs (by rwa [literal?_asWritten]),
            glue_literal_cons hs hd, List.map_cons, List.map_cons]
          rfl
        | some t =>
          obtain rfl := eq_literal_of_literal? hd
          simp [glue, literal?, hs, asWritten]

/-- Gluing a whole list can be done before or after. -/
theorem foldr_glue_asWritten (es : List (Expr .text)) :
    (es.map asWritten).foldr glue [] = (es.foldr glue []).map asWritten := by
  induction es with
  | nil => rfl
  | cons e es ih => rw [List.map_cons, List.foldr_cons, ih, glue_asWritten, List.foldr_cons]

/-- A chain can be made before or after. -/
theorem chain_asWritten (es : List (Expr .text)) :
    chain (es.map asWritten) = (chain es).asWritten := by
  have hfold (e : Expr .text) (es : List (Expr .text)) :
      (es.map asWritten).foldl concat e.asWritten = (es.foldl concat e).asWritten := by
    induction es generalizing e with
    | nil => rfl
    | cons d es ih => exact ih (concat e d)
  cases es with
  | nil => rfl
  | cons e es => exact hfold e es

/-- A text in normal form is, as it is written, the chain of its parts, glued. -/
theorem Normal.asWritten_eq_chain {e : Expr .text} (h : e.Normal) :
    e.asWritten = chain ((e.asWritten.parts []).foldr glue []) := by
  have hparts := parts_asWritten e []
  rw [List.map_nil] at hparts
  rw [hparts, foldr_glue_asWritten, chain_asWritten, ← h.eq_chain]

end Expr

/-! ### What is read back -/

namespace Expr

/-- The expression, as it is written, is what is read where its form is. Of a text this is said
    part by part. -/
def ReadsBack (registry : String → Option Signature) : {k : Category} → Expr k → Prop
  | .text, e => ∀ t : Pieces, (e.form.pieces.append t).read registry =
      (e.asWritten.parts []).foldr glue (t.read registry)
  | k, e => e.form.read registry k = e.asWritten

variable {registry : String → Option Signature} {k : Category}

/-- What reads back in normal form is read as it is written. -/
theorem ReadsBack.read_eq {e : Expr k} (h : e.ReadsBack registry) (hnormal : e.Normal) :
    e.form.read registry k = e.asWritten := by
  cases k with
  | boolean | number => exact h
  | text =>
    have hread := h .nil
    rw [Pieces.append_nil, Pieces.read] at hread
    rw [hnormal.asWritten_eq_chain, form_eq_quote, Form.read, hread]

/-- A comparison is read back if its sides are. -/
theorem comparing_read (op : CompareOp) {l r : Expr k} (hl : Mentions registry l.mentions)
    (hr : Mentions registry r.mentions) (hlread : l.form.read registry k = l.asWritten)
    (hrread : r.form.read registry k = r.asWritten) :
    comparing op (l.form.read registry (l.form.sharedCategory registry r.form))
        (r.form.read registry (l.form.sharedCategory registry r.form)) =
      comparing op l.asWritten r.asWritten := by
  have hk (h : l.form.sharedCategory registry r.form = k) :
      comparing op (l.form.read registry (l.form.sharedCategory registry r.form))
          (r.form.read registry (l.form.sharedCategory registry r.form)) =
        comparing op l.asWritten r.asWritten := by
    rw [h, hlread, hrread]
  obtain hcategory | ⟨hne, w, hw, hform, hwritten⟩ := l.category?_form hl
  · exact hk (by rw [Form.sharedCategory, hcategory]; rfl)
  obtain hcategory | ⟨-, v, hv, hform', hwritten'⟩ := r.category?_form hr
  · exact hk (by rw [Form.sharedCategory, hform, hw.category?_eq, hcategory]; rfl)
  · -- Two variables, whatever they must hold.
    rw [Form.sharedCategory, hform, hform', hwritten, hwritten', hw.category?_eq, hv.category?_eq,
      Option.or_none, Option.getD_none, hw.read_number, hv.read_number]
    cases k with
    | boolean | number => rfl
    | text => exact absurd rfl hne

/-- What is put into a text is read back if it is read alone. -/
theorem shown_read {e : Expr k} (h : Mentions registry e.mentions)
    (hread : e.form.read registry k = e.asWritten) :
    (e.form.read registry ((e.form.category? registry).getD .number)).shown =
      e.asWritten.shown := by
  obtain hcategory | ⟨hne, w, hw, hform, hwritten⟩ := e.category?_form h
  · rw [hcategory, Option.getD_some, hread]
  · rw [hwritten, hform, hw.category?_eq, Option.getD_none,
      hw.read_number]
    cases k with
    | boolean | number => rfl
    | text => exact absurd rfl hne

/-- Characters are read back as a literal. -/
theorem read_ofChars (xs : List Char) (t : Pieces) : (Pieces.ofChars xs t).read registry =
    glue (literal (k := .text) (String.ofList xs)) (t.read registry) := by
  induction xs with
  | nil => simp [Pieces.ofChars, glue, literal?]
  | cons x xs ih =>
    rw [Pieces.ofChars, Pieces.read, ih, ← glue_literal_append]
    simp [String.ofList_cons]

/-- A literal reads back. -/
theorem readsBack_literal (v : k.Carrier) : (literal v).ReadsBack registry := by
  cases k with
  | boolean => cases v <;> rfl
  | number =>
    change (Form.word (Number.text v)).read registry .number = (literal v).asWritten
    by_cases hwords : Number.text v ∈ Number.words
    · rw [(Number.bare_text hwords).read_number, asWritten, if_pos hwords]
    · rw [Form.read, Number.ofWord?_text hwords, asWritten, if_neg hwords]
      rfl
  | text =>
    intro t
    change ((Pieces.ofChars v.toList .nil).append t).read registry = glue (literal v) _
    rw [Pieces.append_ofChars, Pieces.append, read_ofChars, String.ofList_toList]
    rfl

/-- A part of a text that is in braces. -/
theorem read_braced {f : Form} {e : Expr .text} (he : ¬ e.isConcat ∧ e.literal? = none)
    (h : (f.read registry ((f.category? registry).getD .number)).shown = e) (t : Pieces) :
    ((Pieces.braced f .nil).append t).read registry =
      (e.parts []).foldr glue (t.read registry) := by
  rw [Pieces.append, Pieces.append, Pieces.read, h, parts_of_not_isConcat he.1, List.foldr_cons,
    List.foldr_nil, glue, he.2]

/-- A variable with a name reads back. -/
theorem readsBack_variable {name : String} (h : IsName name) :
    (Expr.variable (k := k) name).ReadsBack registry := by
  cases k with
  | boolean => exact if_neg h.bare.not_mem_truths
  | number => exact h.bare.read_number
  | text =>
    refine read_braced ⟨Bool.false_ne_true, rfl⟩ ?_
    rw [h.bare.category?_eq, Option.getD_none, h.bare.read_number]
    rfl

/-- A call reads back, by the category of its binding. -/
theorem readsBack_call {name : String} {args : Args}
    (hfits : registry name = some ⟨args.categories, k⟩)
    (hargs : args.forms.read registry args.categories = args.asWritten) :
    (Expr.call (k := k) name args).ReadsBack registry := by
  have hread : (Form.call name args.forms).read registry k = call name args.asWritten := by
    rw [Form.read, hfits, ← hargs]
    rfl
  cases k with
  | boolean | number => exact hread
  | text =>
    refine read_braced ⟨Bool.false_ne_true, rfl⟩ ?_
    rw [Form.category?, hfits, Option.map_some, Option.getD_some, hread]
    rfl

/-- A comparison is no negation. -/
theorem compared_compared (op : CompareOp) (l : Expr .boolean) {j : Category} (l' r' : Expr j) :
    compared .is l (compared op l' r') = comparing .is l (compared op l' r') := by
  have hcomparing (op : CompareOp) {j : Category} (l' r' : Expr j) :
      compared .is l (comparing op l' r') = comparing .is l (comparing op l' r') := by
    rw [comparing]
    split <;> rfl
  rw [compared.eq_def op]
  split <;> exact hcomparing _ _ _

/-- A comparison reads back, in a category that its sides share. -/
theorem readsBack_compare (op : CompareOp) {l r : Expr k} (hl : Mentions registry l.mentions)
    (hr : Mentions registry r.mentions) (hlread : l.form.read registry k = l.asWritten)
    (hrread : r.form.read registry k = r.asWritten) :
    (compare k op l r).ReadsBack registry := by
  have hread (op : CompareOp) := comparing_read op hl hr hlread hrread
  cases op with
  | isNot => exact hread .isNot
  | is =>
    cases r with
    | not d =>
      -- The negation is read as a part of the comparison.
      exact comparing_read .isNot hl hr hlread (Expr.not.inj hrread)
    | literal v | «variable» name | call name args =>
      cases k <;> exact hread .is
    | compare j op' l' r' =>
      have hwritten := compared_compared op' l.asWritten l'.asWritten r'.asWritten
      cases op' <;> exact (hread .is).trans hwritten.symm
    | compareVariables op' l' r' => cases op' <;> exact hread .is
    | _ => exact hread .is

/-- A comparison of two variables by name reads back. -/
theorem readsBack_compareVariables (op : CompareOp) {l r : String} (hl : IsBare l)
    (hr : IsBare r) : (compareVariables op l r).ReadsBack registry := by
  have hshared : (Form.word l).sharedCategory registry (.word r) = .number := by
    rw [Form.sharedCategory, hl.category?_eq, hr.category?_eq]
    rfl
  have hnumber {k : Category} (hk : k = .number) : comparing op
      ((Form.word l).read registry k) ((Form.word r).read registry k) =
        compareVariables op l r := by
    subst hk
    rw [hl.read_number, hr.read_number]
    rfl
  cases op <;> exact hnumber hshared

end Expr

mutual

/-- An expression in normal form is read back as it is written. -/
theorem Expr.readsBack {registry : String → Option Signature} :
    {k : Category} → (e : Expr k) → Mentions registry e.mentions → e.Normal →
      e.ReadsBack registry
  | _, .literal v, _, _ => Expr.readsBack_literal v
  | _, .variable name, h, _ =>
    Expr.readsBack_variable ((mentions_cons.1 h).1.2 name (List.mem_singleton_self name))
  | k, .call name args, h, hnormal => by
    obtain ⟨⟨hfits, -⟩, hargs⟩ := mentions_cons.1 h
    exact Expr.readsBack_call hfits (args.read_forms hargs (Expr.normal_call.1 hnormal))
  | _, .not e, h, hnormal => by
    obtain ⟨-, he⟩ := Expr.normal_not.1 hnormal
    exact congrArg Expr.not ((e.readsBack h he).read_eq he)
  | _, .logic op l r, h, hnormal => by
    obtain ⟨hl, hr⟩ := mentions_append.1 h
    obtain ⟨-, hlnormal, hrnormal⟩ := Expr.normal_logic.1 hnormal
    exact congrArg₂ (Expr.logic op) ((l.readsBack hl hlnormal).read_eq hlnormal)
      ((r.readsBack hr hrnormal).read_eq hrnormal)
  | _, .compare _ op l r, h, hnormal => by
    obtain ⟨hl, hr⟩ := mentions_append.1 h
    obtain ⟨-, hlnormal, hrnormal⟩ := Expr.normal_compare.1 hnormal
    exact Expr.readsBack_compare op hl hr ((l.readsBack hl hlnormal).read_eq hlnormal)
      ((r.readsBack hr hrnormal).read_eq hrnormal)
  | _, .compareVariables op l r, h, _ => by
    obtain ⟨hl, hr⟩ := List.forall_mem_cons.1 (mentions_cons.1 h).1.2
    exact Expr.readsBack_compareVariables op hl.bare (hr r (List.mem_singleton_self r)).bare
  | _, .arith op l r, h, hnormal => by
    obtain ⟨hl, hr⟩ := mentions_append.1 h
    obtain ⟨-, hlnormal, hrnormal⟩ := Expr.normal_arith.1 hnormal
    exact congrArg₂ (Expr.arith op) ((l.readsBack hl hlnormal).read_eq hlnormal)
      ((r.readsBack hr hrnormal).read_eq hrnormal)
  -- The parts of a text are read from the last to the first, each put in front of what follows.
  | _, .concat l r, h, hnormal => by
    obtain ⟨hl, hr⟩ := mentions_append.1 h
    obtain ⟨-, hlnormal, hrnormal⟩ := Expr.normal_concat.1 hnormal
    intro t
    rw [Expr.form, Form.pieces, Pieces.append_assoc, l.readsBack hl hlnormal,
      r.readsBack hr hrnormal, Expr.asWritten, Expr.parts,
      Expr.parts_append l.asWritten (r.asWritten.parts []), List.foldr_append]
  | _, .ofNumber e, h, hnormal => by
    obtain ⟨-, he⟩ := Expr.normal_ofNumber.1 hnormal
    exact Expr.read_braced (Expr.shown_isPart_number _)
      (Expr.shown_read h ((e.readsBack h he).read_eq he))
  | _, .ofBoolean e, h, hnormal => by
    obtain ⟨-, he⟩ := Expr.normal_ofBoolean.1 hnormal
    exact Expr.read_braced (Expr.shown_isPart_boolean _)
      (Expr.shown_read h ((e.readsBack h he).read_eq he))
  | _, .interpolate name, h, _ => by
    have hname := (mentions_cons.1 h).1.2 name (List.mem_singleton_self name)
    refine Expr.read_braced ⟨Bool.false_ne_true, rfl⟩ ?_
    rw [hname.bare.category?_eq, Option.getD_none, hname.bare.read_number]
    rfl

/-- The forms of arguments are read back with the categories of the arguments. -/
theorem Args.read_forms {registry : String → Option Signature} : (args : Args) →
    Mentions registry args.mentions → args.Normal →
      args.forms.read registry args.categories = args.asWritten
  | .nil, _, _ => rfl
  | .cons e rest, h, hnormal => by
    obtain ⟨he, hrest⟩ := mentions_append.1 h
    obtain ⟨henormal, hrestnormal⟩ := Args.normal_cons.1 hnormal
    rw [Args.forms, Args.categories, Forms.read, (e.readsBack he henormal).read_eq henormal,
      rest.read_forms hrest hrestnormal, Args.asWritten]

end

/-- Plain texts in normal form have the same text if and only if they are the same as they are
    written. -/
theorem Expr.text_eq_iff {registry : String → Option Signature} {d e : Expr .text}
    (hd : Mentions registry d.mentions) (he : Mentions registry e.mentions) (hdnormal : d.Normal)
    (henormal : e.Normal) (hdplain : d.Plain false) (heplain : e.Plain false) :
    d.text = e.text ↔ d.asWritten = e.asWritten := by
  constructor
  · intro h
    rw [← (d.readsBack hd hdnormal).read_eq hdnormal, ← (e.readsBack he henormal).read_eq henormal,
      Expr.form_eq_of_text_eq hd he hdplain heplain h]
  · intro h
    rw [← d.text_asWritten, ← e.text_asWritten, h]

end Dialogue
