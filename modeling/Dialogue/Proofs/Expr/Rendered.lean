import Dialogue.Grammar.Name
import Dialogue.Proofs.Expr.Form
import Dialogue.Proofs.Expr.Mention
import Dialogue.Proofs.Number.Text

/-!
# Rendered expressions

What is written for an expression is a form (`Expr.form`), and its text is that of the form
(`Expr.render_form`). So a text is told by what it shows, provided that its variables and bindings
have names, and the characters of what is written out stand for themselves: then it has the same
form as every such text that is written the same (`Expr.form_eq_of_text_eq`).
-/

namespace Dialogue

/-! ## The form of an expression -/

namespace Pieces

/-- Characters before other pieces. -/
def ofChars : List Char → Pieces → Pieces
  | [], t => t
  | x :: xs, t => .char x (ofChars xs t)

/-- Pieces before others. -/
def append : Pieces → Pieces → Pieces
  | .nil, u => u
  | .char x rest, u => .char x (rest.append u)
  | .braced f rest, u => .braced f (rest.append u)

/-- Pieces are put behind characters. -/
theorem append_ofChars (xs : List Char) (t u : Pieces) :
    (ofChars xs t).append u = ofChars xs (t.append u) := by
  induction xs with
  | nil => rfl
  | cons x xs ih => rw [ofChars, append, ih, ofChars]

/-- Nothing put behind pieces changes nothing. -/
theorem append_nil : (t : Pieces) → t.append .nil = t
  | .nil => rfl
  | .char x rest => by rw [append, append_nil rest]
  | .braced f rest => by rw [append, append_nil rest]

/-- Three rows of pieces may be put together in either order. -/
theorem append_assoc : (t u v : Pieces) → (t.append u).append v = t.append (u.append v)
  | .nil, _, _ => rfl
  | .char x rest, u, v => by rw [append, append, append_assoc rest, append]
  | .braced f rest, u, v => by rw [append, append, append_assoc rest, append]

/-- Characters are written as they are. -/
theorem render_ofChars (xs : List Char) (t : Pieces) :
    (ofChars xs t).render = xs ++ t.render := by
  induction xs with
  | nil => rfl
  | cons x xs ih => rw [ofChars, render, ih, List.cons_append]

/-- Two rows of pieces are written one after the other. -/
theorem render_append : (t u : Pieces) → (t.append u).render = t.render ++ u.render
  | .nil, _ => rfl
  | .char x rest, u => by rw [append, render, render_append rest, render, List.cons_append]
  | .braced f rest, u => by simp [append, render, render_append rest]

/-- Characters are clear if each of them stands for itself. -/
theorem clear_ofChars {xs : List Char} {t : Pieces} {quoted : Bool} :
    (ofChars xs t).Clear quoted ↔ (∀ x ∈ xs, StandsForItself quoted x) ∧ t.Clear quoted := by
  induction xs with
  | nil => simp [ofChars]
  | cons x xs ih => rw [ofChars, Clear, ih, List.forall_mem_cons, and_assoc]

/-- Two rows of pieces are clear if both of them are. -/
theorem clear_append {quoted : Bool} : {t u : Pieces} →
    ((t.append u).Clear quoted ↔ t.Clear quoted ∧ u.Clear quoted)
  | .nil, _ => by rw [append, Clear, true_and]
  | .char x rest, u => by rw [append, Clear, clear_append, Clear, and_assoc]
  | .braced f rest, u => by rw [append, Clear, clear_append, Clear, and_assoc]

end Pieces

namespace Form

/-- The pieces of a text. What is no text is put into one. -/
def pieces : Form → Pieces
  | .quote t => t
  | f => .braced f .nil

/-- A part of an expression of a category: put into a text if it is of one. -/
def part : Category → Form → Form
  | .text, f => .quote (.braced f .nil)
  | _, f => f

/-- A value that is written out. -/
def literal : (k : Category) → k.Carrier → Form
  | .text, s => .quote (.ofChars s.toList .nil)
  | k, v => .word (k.textOf v)

/-- Two operands compared. That they differ is written like that one is not the other. -/
def compared : CompareOp → Form → Form → Form
  | .is, l, r => .joined .is l r
  | .isNot, l, r => .joined .is l (.not r)

end Form

mutual

/-- What is written for an expression. -/
def Expr.form : {k : Category} → Expr k → Form
  | k, .literal v => .literal k v
  | k, .variable name => .part k (.word name)
  | k, .call name args => .part k (.call name args.forms)
  | _, .not e => .not e.form
  | _, .logic op l r => .joined (.logic op) l.form r.form
  | _, .compare _ op l r => .compared op l.form r.form
  | _, .compareVariables op l r => .compared op (.word l) (.word r)
  | _, .arith op l r => .joined (.arith op) l.form r.form
  | _, .concat l r => .quote (l.form.pieces.append r.form.pieces)
  | _, .ofNumber e | _, .ofBoolean e => .quote (.braced e.form .nil)
  | _, .interpolate name => .quote (.braced (.word name) .nil)

/-- What is written for arguments. -/
def Args.forms : Args → Forms
  | .nil => .nil
  | .cons e rest => .cons e.form rest.forms

end

/-- What is written for a text is quoted. -/
theorem Expr.form_eq_quote (e : Expr .text) : e.form = .quote e.form.pieces := by
  cases e <;> rw [Expr.form] <;> rfl

/-! ## The text of an expression is that of its form -/

/-- An operation is written in parentheses, with blanks around its sign. -/
theorem toList_parenthesized (l op r : String) : (parenthesized l op r).toList =
    '(' :: (l.toList ++ ' ' :: (op.toList ++ ' ' :: (r.toList ++ [')']))) := by
  simp [parenthesized, toString]

/-- Texts with separators are the first one, and each other one behind a separator. -/
theorem toList_intercalate_cons (sep s : String) (l : List String) :
    (sep.intercalate (s :: l)).toList =
      s.toList ++ l.flatMap fun t => sep.toList ++ t.toList := by
  induction l generalizing s with
  | nil => simp
  | cons t l ih =>
    rw [String.toList_intercalate, List.map_cons, List.map_cons, List.intercalate_cons_cons,
      ← List.map_cons, ← String.toList_intercalate, ih, List.flatMap_cons, List.append_assoc,
      List.append_assoc]

/-- A part of a text is written in braces unless it is a text. -/
theorem Form.render_part (k : Category) (f : Form) (s : String) (h : f.render = s.toList) :
    (part k f).render = (operandOf k (partOf k s)).toList := by
  cases k <;> simp [part, render, Pieces.render, operandOf, partOf, braced, h]

/-- A literal is written by its text, in quotes if it is one. -/
theorem Form.render_literal (k : Category) (v : k.Carrier) :
    (literal k v).render = (operandOf k (k.textOf v)).toList := by
  cases k with
  | boolean | number => rfl
  | text =>
    simp [literal, render, Pieces.render_ofChars, Pieces.render, operandOf, Category.textOf]

/-- A comparison of forms is written like that of expressions. -/
theorem Form.render_compared (op : CompareOp) {l r : Form} {s t : String}
    (hl : l.render = s.toList) (hr : r.render = t.toList) :
    (compared op l r).render = (parenthesized s op.word t).toList := by
  cases op <;> simp [compared, render, toList_parenthesized, Sign.word, CompareOp.word, hl, hr]

/-- A text is written by its pieces. -/
theorem Expr.pieces_of_render {e : Expr .text} (h : e.form.render = e.operandText.toList) :
    e.form.pieces.render = e.text.toList := by
  rw [e.form_eq_quote] at h
  simpa [Form.render, operandText, operandOf] using h

mutual

/-- The text of an expression, as an operand, is that of its form. -/
theorem Expr.render_form : {k : Category} → (e : Expr k) → e.form.render = e.operandText.toList
  | k, .literal v => by
    rw [Expr.form, Form.render_literal, Expr.operandText, Expr.text]
  | k, .variable name => by
    rw [Expr.form, Form.render_part k _ name (by rw [Form.render]), Expr.operandText, Expr.text]
  | k, .call name args => by
    let list := ", ".intercalate args.texts
    have hcall : Form.render (.call name args.forms) = s!"{name}({list})".toList := by
      simp [Form.render, Args.render_forms args, toString, list]
    rw [Expr.form, Form.render_part k _ _ hcall, Expr.operandText, Expr.text]
  | _, .not e => by
    have he : e.form.render = e.text.toList := e.render_form
    simp [Expr.form, Form.render, Expr.operandText, operandOf, Expr.text, he]
  | _, .logic op l r => by
    have hl : l.form.render = l.text.toList := l.render_form
    have hr : r.form.render = r.text.toList := r.render_form
    simp [Expr.form, Form.render, Expr.operandText, operandOf, Expr.text, toList_parenthesized,
      Sign.word, hl, hr]
  | _, .compare _ op l r => by
    rw [Expr.form, Form.render_compared op l.render_form r.render_form, Expr.operandText]
    rfl
  | _, .compareVariables op l r => by
    have hword (w : String) : Form.render (.word w) = w.toList := by rw [Form.render]
    rw [Expr.form, Form.render_compared op (hword l) (hword r), Expr.operandText]
    rfl
  | _, .arith op l r => by
    have hl : l.form.render = l.text.toList := l.render_form
    have hr : r.form.render = r.text.toList := r.render_form
    simp [Expr.form, Form.render, Expr.operandText, operandOf, Expr.text, toList_parenthesized,
      Sign.word, hl, hr]
  | _, .concat l r => by
    simp [Expr.form, Form.render, Pieces.render_append, Expr.pieces_of_render l.render_form,
      Expr.pieces_of_render r.render_form, Expr.operandText, operandOf, Expr.text]
  | _, .ofNumber e => by
    have he : e.form.render = e.text.toList := e.render_form
    simp [Expr.form, Form.render, Pieces.render, Expr.operandText, operandOf, Expr.text, braced, he]
  | _, .ofBoolean e => by
    have he : e.form.render = e.text.toList := e.render_form
    simp [Expr.form, Form.render, Pieces.render, Expr.operandText, operandOf, Expr.text, braced, he]
  | _, .interpolate name => by
    simp [Expr.form, Form.render, Pieces.render, Expr.operandText, operandOf, Expr.text, braced]

/-- The forms of arguments are written with commas between them. -/
theorem Args.render_forms : (args : Args) →
    args.forms.render = (", ".intercalate args.texts).toList ++ [')']
  | .nil => by simp [Args.forms, Forms.render, Args.texts]
  | .cons e rest => by
    rw [Args.forms, Forms.render, Expr.render_form e, Args.renderRest_forms rest, Args.texts,
      toList_intercalate_cons, Expr.operandText, List.append_assoc]

/-- Behind the first one, each has its comma before it. -/
theorem Args.renderRest_forms : (args : Args) →
    args.forms.renderRest = (args.texts.flatMap fun s => ", ".toList ++ s.toList) ++ [')']
  | .nil => by simp [Args.forms, Forms.renderRest, Args.texts]
  | .cons e rest => by
    rw [Args.forms, Forms.renderRest, Expr.render_form e, Args.renderRest_forms rest, Args.texts]
    simp [Expr.operandText]

end

/-! ## Words -/

/-- Characters of a class that no mark is of are no marks. -/
theorem plain_of_forall (set : Char → Bool) (hmarks : marks.all (!set ·)) {xs : List Char}
    (h : ∀ x ∈ xs, set x) : ∀ x ∈ xs, isMark x = false := by
  refine fun x hx => Bool.eq_false_iff.2 fun hmark => ?_
  have hset := List.all_eq_true.1 hmarks x (List.contains_iff_mem.1 hmark)
  simp [h x hx] at hset

/-- A name of a variable or of a binding. -/
structure IsName (w : String) : Prop where
  /-- It is not empty. -/
  ne_nil : w.toList ≠ []
  /-- It is one word. -/
  isWord : ∀ x ∈ w.toList, Text.isWord x
  /-- It does not start with a digit. -/
  first : ∀ x ∈ w.toList.head?, x.isDigit = false
  /-- It is not reserved. -/
  unreserved : w ∉ Grammar.reserved

/-- The truth values in words. -/
def truths : List String := ["true", "false"]

namespace IsName

variable {w : String}

/-- A name is a word. -/
theorem clear (h : IsName w) : IsWord w where
  ne_nil := h.ne_nil
  ne_not hnot := h.unreserved (by rw [String.toList_inj.1 hnot]; decide)
  plain := plain_of_forall Text.isWord (by decide) h.isWord

/-- A name is not that of a truth value. -/
theorem not_mem_truths (h : IsName w) : w ∉ truths := by
  intro htruth
  have hall : truths.all Grammar.reserved.contains := by decide
  exact h.unreserved (List.contains_iff_mem.1 (List.all_eq_true.1 hall w htruth))

end IsName

namespace Number

/-- The word that a number is written with is told by its text. -/
theorem isWord_text (v : Float) : IsWord (text v) where
  ne_nil := (text_spec v).1
  ne_not hnot := by
    have hpart := (text_spec v).2 'o' (by rw [hnot]; decide)
    exact absurd hpart (by decide)
  plain := plain_of_forall isPart (by decide) (text_spec v).2

/-- A number is not written like a truth value. -/
theorem text_not_mem_truths (v : Float) : text v ∉ truths := by
  intro htruth
  have hall : truths.all fun w => w.toList.any (!isPart ·) := by decide
  obtain ⟨x, hx, hpart⟩ := List.any_eq_true.1 (List.all_eq_true.1 hall _ htruth)
  simp [(text_spec v).2 x hx] at hpart

/-- A number that is written like a name is written with one of the two words. -/
theorem text_mem_words (v : Float) (h : IsName (text v)) : text v ∈ words := by
  refine (text_cases v).resolve_right ?_
  rintro ⟨c, cs, hcs, hdigit | rfl⟩
  · exact Bool.false_ne_true ((h.first c (by rw [hcs]; rfl)).symm.trans hdigit)
  · have hword := h.isWord '-' (by rw [hcs]; exact List.mem_cons_self)
    exact absurd hword (by decide)

end Number

/-! ## Expressions that are told by their texts -/

/-- The names that are mentioned. -/
def Mention.names : Mention → List String
  | call name _ => [name]
  | m => m.variableNames

/-- The variables and the bindings have names, and the calls are those of bindings. -/
def Mentions (registry : String → Option Signature) (ms : List Mention) : Prop :=
  ∀ m ∈ ms, m.Fits registry ∧ ∀ w ∈ m.names, IsName w

/-- What the expression mentions has names, and its calls are those of bindings. -/
def Expr.Named (registry : String → Option Signature) {k : Category} (e : Expr k) : Prop :=
  Mentions registry e.mentions

mutual

/-- The texts that are written out in an expression are of characters that stand for themselves,
    also where they are in quotes. -/
def Expr.Plain : {k : Category} → Expr k → (quoted : Bool) → Prop
  | .text, .literal s, quoted => ∀ x ∈ String.toList s, StandsForItself quoted x
  | _, .literal _, _ | _, .variable _, _ | _, .compareVariables _ _ _, _
  | _, .interpolate _, _ => True
  | _, .call _ args, _ => args.Plain
  | _, .not e, _ | _, .ofNumber e, _ | _, .ofBoolean e, _ => e.Plain true
  | _, .logic _ l r, _ | _, .compare _ _ l r, _ | _, .arith _ l r, _ => l.Plain true ∧ r.Plain true
  | _, .concat l r, quoted => l.Plain quoted ∧ r.Plain quoted

/-- The texts that are written out in arguments are of characters that stand for themselves. -/
def Args.Plain : Args → Prop
  | .nil => True
  | .cons e rest => e.Plain true ∧ rest.Plain

end

namespace Form

variable {f : Form} {quoted : Bool}

/-- A text with clear pieces is clear. -/
theorem clear_of_pieces (h : f.pieces.Clear true) : f.Clear := by
  cases f with
  | quote t => exact h
  | word | call | not | joined => exact h.1

/-- A clear form that is not a quotation has clear pieces. -/
theorem clear_pieces (hquote : f.kind ≠ .quote) (hf : f.Clear) : f.pieces.Clear quoted := by
  cases f with
  | quote t => exact absurd rfl hquote
  | word | call | not | joined => exact ⟨hf, trivial⟩

/-- A clear form has clear pieces as a part of a text. -/
theorem clear_pieces_part (k : Category) (hquote : f.kind ≠ .quote) (hf : f.Clear) :
    (part k f).pieces.Clear quoted := by
  cases k with
  | boolean | number => exact clear_pieces hquote hf
  | text => exact ⟨hf, trivial⟩

/-- A comparison of clear forms has clear pieces. -/
theorem clear_pieces_compared (op : CompareOp) {l r : Form} (hl : l.Clear) (hr : r.Clear) :
    (compared op l r).pieces.Clear quoted := by
  cases op <;> exact ⟨⟨hl, hr⟩, trivial⟩

/-- A literal whose characters stand for themselves has clear pieces. -/
theorem clear_pieces_literal (k : Category) (v : k.Carrier) (hv : (Expr.literal v).Plain quoted) :
    (literal k v).pieces.Clear quoted := by
  cases k with
  | boolean =>
    refine ⟨?_, trivial⟩
    cases v <;>
      exact ⟨by decide, by decide, plain_of_forall Text.isWord (by decide)
        (List.all_eq_true.1 (by decide))⟩
  | number => exact ⟨Number.isWord_text v, trivial⟩
  | text => exact Pieces.clear_ofChars.2 ⟨by simpa [Expr.Plain] using hv, trivial⟩

end Form

section

variable {registry : String → Option Signature}

/-- Mentions of two lists are those of each of them. -/
theorem mentions_append {l m : List Mention} :
    Mentions registry (l ++ m) ↔ Mentions registry l ∧ Mentions registry m :=
  List.forall_mem_append

/-- Mentions are those of the first one and those of the rest. -/
theorem mentions_cons {x : Mention} {m : List Mention} : Mentions registry (x :: m) ↔
    (x.Fits registry ∧ ∀ w ∈ x.names, IsName w) ∧ Mentions registry m :=
  List.forall_mem_cons

end

mutual

/-- What is written for an expression is told by its text. -/
theorem Expr.clear_form {registry : String → Option Signature} :
    {k : Category} → (e : Expr k) → Mentions registry e.mentions → {quoted : Bool} →
      e.Plain quoted → e.form.pieces.Clear quoted
  | k, .literal v, _, _, hplain => by
    rw [Expr.form]
    exact Form.clear_pieces_literal k v hplain
  | k, .variable name, h, _, _ => by
    rw [Expr.form]
    refine Form.clear_pieces_part k nofun ?_
    exact ((mentions_cons.1 h).1.2 name (List.mem_singleton_self name)).clear
  | k, .call name args, h, _, hplain => by
    rw [Expr.Plain] at hplain
    rw [Expr.form]
    obtain ⟨⟨-, hname⟩, hargs⟩ := mentions_cons.1 h
    refine Form.clear_pieces_part k nofun ⟨?_, args.clear_forms hargs hplain⟩
    exact (hname name (List.mem_singleton_self name)).clear
  | _, .not e, h, _, hplain => by
    rw [Expr.form]
    have he : e.form.Clear := Form.clear_of_pieces (e.clear_form h hplain)
    exact ⟨he, trivial⟩
  | _, .logic _ l r, h, _, hplain | _, .arith _ l r, h, _, hplain => by
    rw [Expr.form]
    obtain ⟨hl, hr⟩ := mentions_append.1 h
    have hl : l.form.Clear := Form.clear_of_pieces (l.clear_form hl hplain.1)
    have hr : r.form.Clear := Form.clear_of_pieces (r.clear_form hr hplain.2)
    exact ⟨⟨hl, hr⟩, trivial⟩
  | _, .compare _ op l r, h, _, hplain => by
    rw [Expr.form]
    obtain ⟨hl, hr⟩ := mentions_append.1 h
    have hl : l.form.Clear := Form.clear_of_pieces (l.clear_form hl hplain.1)
    have hr : r.form.Clear := Form.clear_of_pieces (r.clear_form hr hplain.2)
    exact Form.clear_pieces_compared op hl hr
  | _, .compareVariables op l r, h, _, _ => by
    rw [Expr.form]
    obtain ⟨hl, hr⟩ := List.forall_mem_cons.1 (mentions_cons.1 h).1.2
    exact Form.clear_pieces_compared op hl.clear (hr r (List.mem_singleton_self r)).clear
  | _, .concat l r, h, _, hplain => by
    rw [Expr.form]
    obtain ⟨hl, hr⟩ := mentions_append.1 h
    exact Pieces.clear_append.2 ⟨l.clear_form hl hplain.1, r.clear_form hr hplain.2⟩
  | _, .ofNumber e, h, _, hplain | _, .ofBoolean e, h, _, hplain => by
    rw [Expr.form]
    have he : e.form.Clear := Form.clear_of_pieces (e.clear_form h hplain)
    exact ⟨he, trivial⟩
  | _, .interpolate name, h, _, _ => by
    rw [Expr.form]
    exact ⟨((mentions_cons.1 h).1.2 name (List.mem_singleton_self name)).clear, trivial⟩

/-- What is written for arguments is told by its text. -/
theorem Args.clear_forms {registry : String → Option Signature} : (args : Args) →
    Mentions registry args.mentions → args.Plain → args.forms.Clear
  | .nil, _, _ => trivial
  | .cons e rest, h, hplain => by
    obtain ⟨he, hrest⟩ := mentions_append.1 h
    exact ⟨Form.clear_of_pieces (e.clear_form he hplain.1), rest.clear_forms hrest hplain.2⟩

end

/-- Plain texts have the same form if they have the same text. -/
theorem Expr.form_eq_of_text_eq {registry : String → Option Signature} {d e : Expr .text}
    (hd : Mentions registry d.mentions) (he : Mentions registry e.mentions)
    (hdplain : d.Plain false) (heplain : e.Plain false) (h : d.text = e.text) :
    d.form = e.form := by
  have hrender : d.form.pieces.render ++ [] = e.form.pieces.render ++ [] := by
    rw [d.pieces_of_render d.render_form, e.pieces_of_render e.render_form, h]
  have hpieces := Pieces.eq_of_render d.form.pieces e.form.pieces (d.clear_form hd hdplain)
    (e.clear_form he heplain) rfl rfl hrender
  rw [d.form_eq_quote, e.form_eq_quote, hpieces.1]

end Dialogue
