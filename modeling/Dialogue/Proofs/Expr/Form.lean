import Dialogue.Expr.Text

/-!
# Written forms

The text of an expression is that of a *form*: a tree of what is written, without the categories
that only the place of an expression tells. In it a text is a row of characters and of forms in
braces, so it does not show how it was put together (`Expr.render_form`).

A form is told by its text where that is *clear*: a word has none of the characters that stand
between words, and a character of a text is no brace, and between quotes no quotation mark. What
is written behind the form does not matter if it starts like what may stand there, so the text
of a form is told apart from the left (`Form.eq_of_render`), piece by piece.
-/

namespace Dialogue

/-- What stands between two operands. -/
inductive Sign where
  /-- An operator on numbers. -/
  | arith (op : ArithOp)
  /-- An operator on truth values. -/
  | logic (op : LogicOp)
  /-- A comparison. -/
  | is
  deriving DecidableEq

/-- The word for a sign. -/
def Sign.word : Sign → String
  | arith op => op.sign
  | logic op => op.word
  | is => CompareOp.is.word

mutual

/-- What is written for an expression. -/
inductive Form where
  /-- A variable, or a value that is no text. -/
  | word (w : String)
  /-- A call. -/
  | call (name : String) (args : Forms)
  /-- A negation. -/
  | not (f : Form)
  /-- Two operands in parentheses. -/
  | joined (s : Sign) (l r : Form)
  /-- A text in quotes. -/
  | quote (t : Pieces)

/-- What is written for arguments. -/
inductive Forms where
  /-- No more arguments. -/
  | nil
  /-- An argument before others. -/
  | cons (f : Form) (rest : Forms)

/-- What is written for a text. -/
inductive Pieces where
  /-- Nothing more. -/
  | nil
  /-- A character. -/
  | char (x : Char) (rest : Pieces)
  /-- A form in braces. -/
  | braced (f : Form) (rest : Pieces)

end

/-! ## The text of a form -/

mutual

/-- The text of a form. -/
def Form.render : Form → List Char
  | .word w => w.toList
  | .call name args => name.toList ++ '(' :: args.render
  | .not f => "not".toList ++ ' ' :: f.render
  | .joined s l r => '(' :: (l.render ++ ' ' :: (s.word.toList ++ ' ' :: (r.render ++ [')'])))
  | .quote t => '"' :: (t.render ++ ['"'])

/-- The text of arguments, up to the parenthesis behind them. -/
def Forms.render : Forms → List Char
  | .nil => [')']
  | .cons f rest => f.render ++ rest.renderRest

/-- The text of arguments behind others. -/
def Forms.renderRest : Forms → List Char
  | .nil => [')']
  | .cons f rest => ',' :: ' ' :: (f.render ++ rest.renderRest)

/-- The text of a row of pieces. -/
def Pieces.render : Pieces → List Char
  | .nil => []
  | .char x rest => x :: rest.render
  | .braced f rest => '\x7b' :: (f.render ++ '\x7d' :: rest.render)

end

/-! ## Clear forms -/

/-- What stands between words. -/
def marks : List Char := [' ', '(', ')', ',', '"', '\x7b', '\x7d']

/-- A character that stands between words. -/
def isMark (x : Char) : Bool := marks.contains x

/-- A word that is told by its text. A negation starts with one that is not. -/
structure IsWord (w : String) : Prop where
  /-- There is a word. -/
  ne_nil : w.toList ≠ []
  /-- No negation starts with it. -/
  ne_not : w.toList ≠ "not".toList
  /-- It has no marks. -/
  plain : ∀ x ∈ w.toList, isMark x = false

/-- A character that stands for itself in a text, which may be in quotes. -/
def StandsForItself (quoted : Bool) (x : Char) : Prop := x ≠ '\x7b' ∧ (quoted → x ≠ '"')

mutual

/-- The form is told by its text. -/
def Form.Clear : Form → Prop
  | .word w => IsWord w
  | .call name args => IsWord name ∧ args.Clear
  | .not f => f.Clear
  | .joined _ l r => l.Clear ∧ r.Clear
  | .quote t => t.Clear true

/-- The forms of arguments are told by their text. -/
def Forms.Clear : Forms → Prop
  | .nil => True
  | .cons f rest => f.Clear ∧ rest.Clear

/-- The pieces of a text, which may be in quotes, are told by their text. -/
def Pieces.Clear : Pieces → (quoted : Bool) → Prop
  | .nil, _ => True
  | .char x rest, quoted => StandsForItself quoted x ∧ rest.Clear quoted
  | .braced f rest, quoted => f.Clear ∧ rest.Clear quoted

end

namespace Form

variable {f g : Form} {xs ys : List Char}

/-- What may stand behind a form: a mark, but not the one that a call goes on with. -/
def Follows (xs : List Char) : Prop := ∀ x ∈ xs.head?, isMark x ∧ x ≠ '('

/-- The word that a form starts with, if it starts with one. -/
def lead : Form → List Char
  | .word w => w.toList
  | .call name _ => name.toList
  | .not _ => "not".toList
  | .joined _ _ _ | .quote _ => []

/-- What is written behind the first word of a form. -/
def tail : Form → List Char
  | .word _ => []
  | .call _ args => '(' :: args.render
  | .not f => ' ' :: f.render
  | .joined s l r => '(' :: (l.render ++ ' ' :: (s.word.toList ++ ' ' :: (r.render ++ [')'])))
  | .quote t => '"' :: (t.render ++ ['"'])

/-- A form is written by its lead and then its tail. -/
theorem render_eq (f : Form) : f.render = f.lead ++ f.tail := by
  cases f <;> simp [render, lead, tail]

/-- A clear lead has none of the marks between words. -/
theorem isMark_of_lead (hf : f.Clear) : ∀ x ∈ f.lead, isMark x = false := by
  cases f with
  | word w =>
    rw [Clear] at hf
    exact hf.plain
  | call name args =>
    rw [Clear] at hf
    exact hf.1.plain
  | not f =>
    have hnot : "not".toList.all (!isMark ·) := by decide
    exact fun x hx => (Bool.not_eq_true' _).mp (List.all_eq_true.1 hnot x hx)
  | joined s l r => exact List.forall_mem_nil _
  | quote t => exact List.forall_mem_nil _

/-- What is behind a lead starts with such a mark. -/
theorem isMark_of_tail (f : Form) (hxs : Follows xs) : ∀ x ∈ (f.tail ++ xs).head?, isMark x := by
  cases f with
  | word w => exact fun x hx => (hxs x hx).1
  | call name args | not f | joined s l r | quote t =>
    rintro _ ⟨⟩
    decide

/-- The first word ends where a mark is. -/
theorem takeWhile_render (hf : f.Clear) (hxs : Follows xs) :
    (f.render ++ xs).takeWhile (!isMark ·) = f.lead := by
  rw [render_eq, List.append_assoc, List.takeWhile_append_of_pos
    (by simpa using isMark_of_lead hf)]
  have hnil : (f.tail ++ xs).takeWhile (!isMark ·) = [] := by
    cases htail : f.tail ++ xs with
    | nil => rfl
    | cons x rest =>
      have hx := f.isMark_of_tail hxs x (by rw [htail]; rfl)
      exact List.takeWhile_cons_of_neg (by simp [hx])
  rw [hnil, List.append_nil]

/-- Forms that start alike go on alike behind their first words. -/
theorem lead_eq_and_tail_eq (hf : f.Clear) (hg : g.Clear) (hxs : Follows xs) (hys : Follows ys)
    (h : f.render ++ xs = g.render ++ ys) : f.lead = g.lead ∧ f.tail ++ xs = g.tail ++ ys := by
  have hlead : f.lead = g.lead := by
    rw [← takeWhile_render hf hxs, h, takeWhile_render hg hys]
  rw [render_eq, render_eq, List.append_assoc, List.append_assoc, hlead] at h
  exact ⟨hlead, List.append_cancel_left h⟩

/-- The kinds of forms. -/
inductive Kind where
  /-- A word. -/
  | word
  /-- A call. -/
  | call
  /-- A negation. -/
  | not
  /-- Two operands. -/
  | joined
  /-- A text. -/
  | quote
  deriving DecidableEq

/-- The kind of a form. -/
def kind : Form → Kind
  | .word _ => .word
  | .call _ _ => .call
  | .not _ => .not
  | .joined _ _ _ => .joined
  | .quote _ => .quote

/-- The kind of the form that starts with this word, if with any, and goes on with this
    character. -/
def kindOf (lead : List Char) (next : Option Char) : Kind :=
  if lead = [] then if next = some '(' then .joined else .quote
  else if lead = "not".toList then .not
  else if next = some '(' then .call
  else .word

/-- The kind of a form is told by its lead and the mark behind it. -/
theorem kind_eq (hf : f.Clear) (hxs : Follows xs) :
    f.kind = kindOf f.lead (f.tail ++ xs).head? := by
  cases f with
  | word w =>
    rw [Clear] at hf
    have hnext : xs.head? ≠ some '(' := fun h => (hxs '(' h).2 rfl
    rw [kind, lead, tail, List.nil_append, kindOf, if_neg hf.ne_nil, if_neg hf.ne_not,
      if_neg hnext]
  | call name args =>
    rw [Clear] at hf
    have hnext : (tail (.call name args) ++ xs).head? = some '(' := rfl
    rw [kind, lead, kindOf, if_neg hf.1.ne_nil, if_neg hf.1.ne_not, if_pos hnext]
  | not f | joined s l r | quote t => rfl

end Form

/-! ## Forms are told by their texts -/

namespace Sign

/-- The signs there are. -/
def all : List Sign :=
  [.arith .add, .arith .subtract, .arith .multiply, .arith .divide, .logic .and, .logic .or,
    .logic .xor, .is]

/-- Every sign is in the list. -/
theorem mem_all (s : Sign) : s ∈ all := by
  cases s with
  | arith op => cases op <;> decide
  | logic op => cases op <;> decide
  | is => decide

/-- Signs are told by their words. -/
theorem word_injective {s t : Sign} (h : s.word = t.word) : s = t := by
  have hall : ∀ s ∈ all, ∀ t ∈ all, s.word = t.word → s = t := by decide
  exact hall s s.mem_all t t.mem_all h

/-- Signs are told apart where a space is behind them. -/
theorem eq_of_word_append {s t : Sign} {xs ys : List Char}
    (h : s.word.toList ++ ' ' :: xs = t.word.toList ++ ' ' :: ys) : s = t ∧ xs = ys := by
  have hword (s : Sign) (xs : List Char) :
      (s.word.toList ++ ' ' :: xs).takeWhile (· ≠ ' ') = s.word.toList := by
    have hall : ∀ s ∈ all, s.word.toList.all (· ≠ ' ') := by decide
    rw [List.takeWhile_append_of_pos (List.all_eq_true.1 (hall s s.mem_all))]
    simp
  have hst : s.word.toList = t.word.toList := by rw [← hword s xs, h, hword]
  rw [hst] at h
  exact ⟨word_injective (String.toList_inj.1 hst), by simpa using h⟩

end Sign

/-- What stands behind a text: a quotation mark if it is in quotes, and nothing otherwise. -/
def Pieces.Follows : (quoted : Bool) → List Char → Prop
  | true, xs => xs.head? = some '"'
  | false, xs => xs = []

/-- A character that stands for itself ends no text. -/
theorem StandsForItself.ne {quoted : Bool} {x : Char} {xs ys : List Char}
    (hx : StandsForItself quoted x) (hys : Pieces.Follows quoted ys) : x :: xs ≠ ys := by
  rintro rfl
  cases quoted with
  | false => cases hys
  | true => exact hx.2 rfl (Option.some.inj hys)

/-- Further arguments start like what may stand behind a form. -/
theorem Forms.follows_renderRest (fs : Forms) (xs : List Char) :
    Form.Follows (fs.renderRest ++ xs) := by
  cases fs <;> · rintro _ ⟨⟩; decide

/-- Every mark but an opening parenthesis may stand behind a form. -/
theorem Form.follows_cons {x : Char} (hx : isMark x) (hne : x ≠ '(') (xs : List Char) :
    Form.Follows (x :: xs) := by
  rintro _ ⟨⟩
  exact ⟨hx, hne⟩

/-- No form starts with a closing parenthesis. -/
theorem Form.ne_of_render {f : Form} (hf : f.Clear) (xs ys : List Char) :
    f.render ++ xs ≠ ')' :: ys := by
  cases hlead : f.lead with
  | cons x rest =>
    rw [render_eq, hlead]
    rintro ⟨⟩
    have hplain := isMark_of_lead hf ')' (by simp [hlead])
    exact absurd hplain (by decide)
  | nil =>
    cases f with
    | word w =>
      rw [Clear] at hf
      exact absurd hlead hf.ne_nil
    | call name args =>
      rw [Clear] at hf
      exact absurd hlead hf.1.ne_nil
    | not f => cases hlead
    | joined s l r | quote t => rintro ⟨⟩

mutual

/-- A clear form is told by its text, whatever follows. -/
theorem Form.eq_of_render (f g : Form) {xs ys : List Char} (hf : f.Clear) (hg : g.Clear)
    (hxs : Form.Follows xs) (hys : Form.Follows ys) (h : f.render ++ xs = g.render ++ ys) :
    f = g ∧ xs = ys := by
  obtain ⟨hlead, htail⟩ := Form.lead_eq_and_tail_eq hf hg hxs hys h
  -- The first word and what is behind it tell the kind, so only forms of one kind are left to
  -- compare.
  have hkind : f.kind = g.kind := by rw [Form.kind_eq hf hxs, Form.kind_eq hg hys, hlead, htail]
  match f, g, hkind with
  | .word w, .word v, _ => exact ⟨by rw [String.toList_inj.1 hlead], htail⟩
  | .call name args, .call name' args', _ =>
    rw [Form.Clear] at hf hg
    obtain ⟨rfl, rfl⟩ := args.eq_of_render args' hf.2 hg.2 (List.cons.inj htail).2
    exact ⟨by rw [String.toList_inj.1 hlead], rfl⟩
  | .not f, .not g, _ =>
    rw [Form.Clear] at hf hg
    obtain ⟨rfl, rfl⟩ := f.eq_of_render g hf hg hxs hys (List.cons.inj htail).2
    exact ⟨rfl, rfl⟩
  | .joined s l r, .joined s' l' r', _ =>
    rw [Form.Clear] at hf hg
    have hspace := Form.follows_cons (x := ' ') (by decide) (by decide)
    have hclose := Form.follows_cons (x := ')') (by decide) (by decide)
    simp only [Form.tail, List.cons_append, List.append_assoc, List.cons.injEq, true_and] at htail
    obtain ⟨rfl, hsign⟩ := l.eq_of_render l' hf.1 hg.1 (hspace _) (hspace _) htail
    obtain ⟨rfl, hright⟩ := Sign.eq_of_word_append (List.cons.inj hsign).2
    obtain ⟨rfl, hrest⟩ := r.eq_of_render r' hf.2 hg.2 (hclose _) (hclose _) hright
    exact ⟨rfl, (List.cons.inj hrest).2⟩
  | .quote t, .quote t', _ =>
    rw [Form.Clear] at hf hg
    simp only [Form.tail, List.cons_append, List.append_assoc, List.cons.injEq, true_and] at htail
    have hmark (zs : List Char) : Pieces.Follows true ('"' :: zs) := rfl
    obtain ⟨rfl, hrest⟩ := t.eq_of_render t' hf hg (hmark _) (hmark _) htail
    exact ⟨rfl, (List.cons.inj hrest).2⟩

/-- Clear arguments are told by their text. -/
theorem Forms.eq_of_render (fs gs : Forms) {xs ys : List Char} (hf : fs.Clear) (hg : gs.Clear)
    (h : fs.render ++ xs = gs.render ++ ys) : fs = gs ∧ xs = ys := by
  match fs, gs with
  | .nil, .nil => exact ⟨rfl, (List.cons.inj h).2⟩
  | .nil, .cons g rest =>
    rw [Forms.Clear] at hg
    rw [Forms.render, Forms.render, List.append_assoc] at h
    exact absurd h.symm (Form.ne_of_render hg.1 _ _)
  | .cons f rest, .nil =>
    rw [Forms.Clear] at hf
    rw [Forms.render, Forms.render, List.append_assoc] at h
    exact absurd h (Form.ne_of_render hf.1 _ _)
  | .cons f rest, .cons g rest' =>
    rw [Forms.Clear] at hf hg
    rw [Forms.render, Forms.render, List.append_assoc, List.append_assoc] at h
    obtain ⟨rfl, hrest⟩ := f.eq_of_render g hf.1 hg.1 (rest.follows_renderRest _)
      (rest'.follows_renderRest _) h
    obtain ⟨rfl, rfl⟩ := rest.eq_of_renderRest rest' hf.2 hg.2 hrest
    exact ⟨rfl, rfl⟩

/-- Further arguments are told by their text. -/
theorem Forms.eq_of_renderRest (fs gs : Forms) {xs ys : List Char} (hf : fs.Clear)
    (hg : gs.Clear) (h : fs.renderRest ++ xs = gs.renderRest ++ ys) : fs = gs ∧ xs = ys := by
  match fs, gs with
  | .nil, .nil => exact ⟨rfl, (List.cons.inj h).2⟩
  | .nil, .cons g rest | .cons f rest, .nil => cases h
  | .cons f rest, .cons g rest' =>
    rw [Forms.Clear] at hf hg
    simp only [Forms.renderRest, List.cons_append, List.append_assoc, List.cons.injEq,
      true_and] at h
    obtain ⟨rfl, hrest⟩ := f.eq_of_render g hf.1 hg.1 (rest.follows_renderRest _)
      (rest'.follows_renderRest _) h
    obtain ⟨rfl, rfl⟩ := rest.eq_of_renderRest rest' hf.2 hg.2 hrest
    exact ⟨rfl, rfl⟩

/-- A clear text is told by its characters, with a quotation mark behind it or nothing. -/
theorem Pieces.eq_of_render (t u : Pieces) {quoted : Bool} {xs ys : List Char}
    (ht : t.Clear quoted) (hu : u.Clear quoted)
    (hxs : Pieces.Follows quoted xs) (hys : Pieces.Follows quoted ys)
    (h : t.render ++ xs = u.render ++ ys) : t = u ∧ xs = ys := by
  have hclose := Form.follows_cons (x := '}') (by decide) (by decide)
  -- A plain character is no brace and does not end the text, so both start with a piece of one
  -- kind.
  match t, u with
  | .nil, .nil => exact ⟨rfl, h⟩
  | .nil, .char y rest =>
    rw [Pieces.Clear] at hu
    exact absurd h.symm (hu.1.ne hxs)
  | .char x rest, .nil =>
    rw [Pieces.Clear] at ht
    exact absurd h (ht.1.ne hys)
  | .nil, .braced g rest =>
    rw [Pieces.render, List.nil_append] at h
    subst h
    cases quoted <;> cases hxs
  | .braced f rest, .nil =>
    rw [Pieces.render, Pieces.render, List.nil_append] at h
    subst h
    cases quoted <;> cases hys
  | .char x rest, .char y rest' =>
    rw [Pieces.Clear] at ht hu
    obtain ⟨rfl, hrest⟩ := List.cons.inj h
    obtain ⟨rfl, rfl⟩ := rest.eq_of_render rest' ht.2 hu.2 hxs hys hrest
    exact ⟨rfl, rfl⟩
  | .char x rest, .braced g rest' =>
    rw [Pieces.Clear] at ht
    exact absurd (List.cons.inj h).1 ht.1.1
  | .braced f rest, .char y rest' =>
    rw [Pieces.Clear] at hu
    exact absurd (List.cons.inj h).1.symm hu.1.1
  | .braced f rest, .braced g rest' =>
    rw [Pieces.Clear] at ht hu
    simp only [Pieces.render, List.cons_append, List.append_assoc, List.cons.injEq, true_and] at h
    obtain ⟨rfl, hrest⟩ := f.eq_of_render g ht.1 hu.1 (hclose _) (hclose _) h
    obtain ⟨rfl, rfl⟩ := rest.eq_of_render rest' ht.2 hu.2 hxs hys (List.cons.inj hrest).2
    exact ⟨rfl, rfl⟩

end

end Dialogue
