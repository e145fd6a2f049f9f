import Dialogue.Proofs.Expr.Rendered
import Dialogue.Proofs.Grammar.Plan
import Dialogue.Proofs.Grammar.Statement
import Dialogue.Proofs.Grammar.Walk
import Dialogue.Proofs.Parser.Follow

/-!
# Traces of claims

Every id that is claimed while a source is read can be traced: it is a name, or it was made from
the prompt of the option that starts where it was claimed (`Traceable`). A rule *traces* if it
claims only such ids, at offsets that it goes over, and never finds an option offered twice but if
there is another one with the same id (`Rule.Traces`). Along with this goes what the rule answers.

The rules for expressions claim nothing. What they answer has names for its variables and calls
bindings with their signatures (`Named`).
-/

namespace Dialogue

open Dialogue.Parser

variable {α β : Type} {W : Nat → Expr .text → Prop} {o c c' c'' : Cursor} {f f' f'' : Facts}

/-- The id is a name, or that of an option with a prompt where it was claimed. -/
def Traceable (W : Nat → Expr .text → Prop) (x : Found String) : Prop :=
  x.item.toList.head? ≠ some '_' ∨ ∃ q, W x.index q ∧ x.item = Grammar.promptId q.text

/-- From the first place to the second one, traceable ids are claimed in between. -/
structure Grows (W : Nat → Expr .text → Prop) (c : Cursor) (f : Facts) (c' : Cursor)
    (f' : Facts) : Prop where
  /-- The second place is ahead. -/
  ahead : c.Ahead c'
  /-- What is new was claimed in between. -/
  claims : ∀ x ∈ f'.declared, x ∈ f.declared ∨
    c.index < x.index ∧ x.index < c'.index ∧ Traceable W x

namespace Grows

/-- Nothing is claimed from a place to itself. -/
theorem refl (c : Cursor) (f : Facts) : Grows W c f c f := ⟨.refl c, fun _ hx => .inl hx⟩

/-- What is claimed on two ways in a row is claimed on the whole way. -/
theorem trans (h : Grows W c f c' f') (h' : Grows W c' f' c'' f'') : Grows W c f c'' f'' where
  ahead := h.ahead.trans h'.ahead
  claims x hx := by
    obtain hx | ⟨hle, hlt, htrace⟩ := h'.claims x hx
    · obtain hx | ⟨hle, hlt, htrace⟩ := h.claims x hx
      · exact .inl hx
      · exact .inr ⟨hle, Nat.lt_of_lt_of_le hlt h'.ahead.index_le, htrace⟩
    · exact .inr ⟨Nat.lt_of_le_of_lt h.ahead.index_le hle, hlt, htrace⟩

/-- Nothing is claimed. -/
theorem of_declared_eq (hahead : c.Ahead c') (h : f'.declared = f.declared) :
    Grows W c f c' f' :=
  ⟨hahead, fun _ hx => .inl (h ▸ hx)⟩

/-- A traceable id is claimed in between. -/
theorem declare {i : Nat} {id : String} (h : Grows W c f c' f') (hi : c.index < i)
    (hi' : i < c'.index) (htrace : Traceable W ⟨i, id⟩) : Grows W c f c' (f'.declare i id) where
  ahead := h.ahead
  claims x hx := by
    obtain hx | hx := List.mem_append.1 hx
    · exact h.claims x hx
    · obtain rfl := List.mem_singleton.1 hx
      exact .inr ⟨hi, hi', htrace⟩

end Grows

/-- All ids were claimed before, and can be traced. -/
def Facts.Behind (W : Nat → Expr .text → Prop) (c : Cursor) (f : Facts) : Prop :=
  ∀ x ∈ f.declared, x.index < c.index ∧ Traceable W x

/-- Claims stay behind the cursor while both go on. -/
theorem Facts.Behind.grow (h : f.Behind W c) (hgrows : Grows W c f c' f') : f'.Behind W c' := by
  intro x hx
  obtain hx | ⟨-, hlt, htrace⟩ := hgrows.claims x hx
  · exact ⟨Nat.lt_of_lt_of_le (h x hx).1 hgrows.ahead.index_le, (h x hx).2⟩
  · exact ⟨hlt, htrace⟩

/-- The option at an offset has the prompt that is told, and another option claimed the id that is
    made from it, with a prompt of its own. -/
def OfferedTwice (W : Nat → Expr .text → Prop) (i : Nat) (t : String) (f : Facts) : Prop :=
  ∃ q, W i q ∧ q.text = t ∧ ∃ j p, j ≠ i ∧ W j p ∧
    ⟨j, Grammar.promptId p.text⟩ ∈ f.declared ∧ Grammar.promptId p.text = Grammar.promptId t

/-- What a rule may reply from `c` and `f`. -/
def Reply.Traced (W : Nat → Expr .text → Prop) (c : Cursor) (f : Facts) (Q : α → Prop) :
    Reply Facts α → Prop
  | .ok a c' f' => Grows W c f c' f' ∧ Q a
  | .miss _ _ _ => True
  | .fatal i x f' => ∀ t, x = .offeredTwice t → f.Behind W c → OfferedTwice W i t f'

namespace Reply.Traced

variable {Q R : α → Prop} {r : Reply Facts α}

/-- The answer of a reply that is traced may be said to be less. -/
theorem mono (h : r.Traced W c f Q) (hQ : ∀ a, Q a → R a) : r.Traced W c f R := by
  cases r with
  | ok a c' f' => exact ⟨h.1, hQ a h.2⟩
  | miss i e f' => exact h
  | fatal i x f' => exact h

/-- What is traced from a place is traced from further back. -/
theorem back (h : r.Traced W c' f' Q) (hgrows : Grows W c f c' f') : r.Traced W c f Q := by
  cases r with
  | ok a c'' f'' => exact ⟨hgrows.trans h.1, h.2⟩
  | miss i e f'' => trivial
  | fatal i x f'' => exact fun t hx hf => h t hx (hf.grow hgrows)

/-- A reply with a changed value claims the same ids. -/
theorem map {g : α → β} {S : β → Prop} (h : r.Traced W c f fun a => S (g a)) :
    (r.map g).Traced W c f S := by
  cases r <;> exact h

end Reply.Traced

/-- In a source that begins at `o` the rule traces, and answers what satisfies `Q`. -/
def Rule.Traces (W : Nat → Expr .text → Prop) (o : Cursor) (p : Rule α) (Q : α → Prop) : Prop :=
  ∀ ⦃c⦄ f, o.Ahead c → (p c f).Traced W c f Q

namespace Rule.Traces

variable {p : Rule α} {Q R : α → Prop} {S : β → Prop}

/-- Of what a rule answers less may be said. -/
theorem mono (h : p.Traces W o Q) (hQ : ∀ a, Q a → R a) : p.Traces W o R :=
  fun _ f ho => (h f ho).mono hQ

/-- A value claims no id. -/
theorem pure {a : α} (h : Q a) : Traces W o (Pure.pure a : Rule α) Q :=
  fun c f _ => ⟨.refl c f, h⟩

/-- Where a rule that traces answers, the ids that it claims can be traced. -/
theorem of_ok {a : α} (h : p.Traces W o Q) (ho : o.Ahead c) (hr : p c f = .ok a c' f') :
    Grows W c f c' f' ∧ Q a := by
  have h := h f ho
  rwa [hr] at h

/-- The rule goes on from a place and facts that grew from others. -/
theorem step {b : Cursor} {e : Facts} {g : α → Rule β} (hp : p.Traces W o Q) (ho : o.Ahead c)
    (hgrows : Grows W b e c f)
    (hg : ∀ a c' f', p c f = .ok a c' f' → Grows W c f c' f' → Q a → (g a c' f').Traced W b e S) :
    ((p >>= g) c f).Traced W b e S := by
  have h := hp f ho
  rw [bind_apply]
  cases hr : p c f with
  | ok a c' f' =>
    rw [hr] at h
    exact hg a c' f' hr h.1 h.2
  | miss i m f' => trivial
  | fatal i x f' =>
    rw [hr] at h
    exact h.back hgrows

/-- In turn, rules trace if the second one does for every value of the first. -/
theorem bind {g : α → Rule β} (hp : p.Traces W o Q) (hg : ∀ a, Q a → (g a).Traces W o S) :
    Traces W o (p >>= g) S :=
  fun c f ho => hp.step ho (.refl c f) fun a _ f' _ hgrows ha =>
    (hg a ha f' (ho.trans hgrows.ahead)).back hgrows

/-- A rule with a changed value claims the same ids. -/
theorem map {g : α → β} (hp : p.Traces W o fun a => S (g a)) : Traces W o (g <$> p) S :=
  hp.bind fun _ h => .pure h

/-- Two rules in turn trace, and the first one answers. -/
theorem seqLeft {q : Rule β} (hp : p.Traces W o Q) (hq : q.Traces W o S) :
    Traces W o (p <* q) Q :=
  hp.bind fun _ h => hq.bind fun _ _ => .pure h

/-- Alternatives trace: the second one starts from the claims that the first did not make. -/
theorem orElse {q : Rule α} (hp : p.Traces W o Q) (hq : q.Traces W o Q) :
    Traces W o (p <|> q) Q := by
  intro c f ho
  have h := hp f ho
  change (Parser.orElse p q c f).Traced W c f Q
  rw [Parser.orElse]
  cases hr : p c f with
  | ok a c' f' => rwa [hr] at h
  | fatal i x f' => rwa [hr] at h
  | miss i e f' =>
    have h' := hq f ho
    cases hr' : q c f with
    | ok a c' f' => rwa [hr'] at h'
    | fatal i x f' => rwa [hr'] at h'
    | miss i' e' f' => trivial

/-- What may be missing traces, and says something of a value only if there is one. -/
theorem optional (hp : p.Traces W o Q) : Traces W o (Parser.optional p) fun s => ∀ a ∈ s, Q a := by
  intro c f ho
  have h := hp f ho
  rw [Parser.optional]
  cases hr : p c f with
  | ok a c' f' =>
    rw [hr] at h
    refine ⟨h.1, ?_⟩
    rintro _ ⟨⟩
    exact h.2
  | fatal i x f' => rwa [hr] at h
  | miss i e f' => exact ⟨.refl c f, nofun⟩

/-- Something goes on with what a rule answers, or without it if it misses. -/
theorem optionalStep {b : Cursor} {e : Facts} {q : Option α → Rule β}
    (hsome : ((p >>= fun a => q (some a)) c f).Traced W b e S)
    (hnone : (q none c f).Traced W b e S) : ((Parser.optional p >>= q) c f).Traced W b e S := by
  rw [bind_apply] at hsome ⊢
  rw [Parser.optional]
  cases hr : p c f with
  | ok a c' f' => rwa [hr] at hsome
  | miss i m f' => exact hnone
  | fatal i x f' => rwa [hr] at hsome

/-- A rule behind what may be missing traces if it does in both cases. -/
theorem optionalBind {q : Option α → Rule β} (hsome : Traces W o (p >>= fun a => q (some a)) S)
    (hnone : (q none).Traces W o S) : Traces W o (Parser.optional p >>= q) S :=
  fun _ f ho => optionalStep (hsome f ho) (hnone f ho)

/-- What is refused claims nothing more, and what is answered was accepted. -/
theorem filter {accepts : α → Bool} {what : String} (hp : p.Traces W o Q) :
    Traces W o (Parser.filter accepts what p) fun a => Q a ∧ accepts a := by
  intro c f ho
  have h := hp f ho
  rw [Parser.filter]
  cases hr : p c f with
  | ok a c' f' =>
    rw [hr] at h
    dsimp only
    split
    · exact ⟨h.1, h.2, ‹_›⟩
    · trivial
  | miss i e f' => trivial
  | fatal i x f' => rwa [hr] at h

/-- Of two rules either one traces where it is chosen. -/
theorem ite {b : Prop} [Decidable b] {q : Rule α} (hp : b → p.Traces W o Q)
    (hq : ¬b → q.Traces W o Q) : Traces W o (if b then p else q) Q := by
  split
  · exact hp ‹b›
  · exact hq ‹¬b›

/-- A reason that is not about an option. -/
theorem fatalAt {i : Nat} {x : Reason} (hx : ∀ t, x ≠ .offeredTwice t) :
    Traces W o (Parser.fatalAt i x : Rule α) Q :=
  fun _ _ _ t h => absurd h (hx t)

/-- Where a condition holds `stop` is run first, which never answers. -/
theorem stopIf {b : Prop} [Decidable b] {stop : Rule Unit} (hstop : ∀ R, stop.Traces W o R)
    (hp : p.Traces W o Q) : Traces W o (if b then stop >>= fun _ => p else p) Q :=
  ite (fun _ => (hstop fun _ => True).bind fun _ _ => hp) fun _ => hp

/-- What neither fails for good nor writes anything. -/
theorem of_keeps (hkeeps : Keeps p) (hsilent : Silent p) : p.Traces W o fun _ => True := by
  intro c f ho
  have hwalk := hkeeps (fun _ => False) o (c.remaining + 1) f ho (Nat.lt_succ_self _)
  cases hr : p c f with
  | ok a c' f' =>
    rw [hr] at hwalk
    have hf : f'.declared = f.declared := hsilent (·.declared = f.declared) rfl hr
    exact ⟨.of_declared_eq hwalk.1 hf, trivial⟩
  | miss i e f' => trivial
  | fatal i x f' =>
    rw [hr] at hwalk
    exact hwalk.2.elim

/-- What neither fails for good nor writes anything may come first. -/
theorem after {q : Rule β} (hkeeps : Keeps q) (hsilent : Silent q) {g : β → Rule α}
    (hg : ∀ b, (g b).Traces W o Q) : Traces W o (q >>= g) Q :=
  (of_keeps hkeeps hsilent).bind fun b _ => hg b

/-- What is noted beside the ids claims none. -/
theorem record {g : Facts → Facts} (hg : ∀ f, (g f).declared = f.declared) :
    Traces W o (Parser.record g) fun _ => True :=
  fun c f _ => ⟨.of_declared_eq (.refl c) (hg f), trivial⟩

/-- What the reference is does not matter for claims. -/
theorem atOwnIndent (hp : p.Traces W o Q) : Traces W o (Parser.atOwnIndent p) Q := by
  intro c f ho
  have h := hp f (ho.withReference c.here)
  rw [Parser.atOwnIndent]
  cases hr : p (c.withReference c.here) f with
  | ok a c' f' =>
    rw [hr] at h
    exact ⟨⟨h.1.ahead.of_withReference.withReference _, h.1.claims⟩, h.2⟩
  | miss i e f' => trivial
  | fatal i x f' => rwa [hr] at h

/-- What is read a second time traces: the claims of the first reading are given up. -/
theorem reread {p : Rule (Option α)} {q : Rule α} (hp : p.Traces W o fun s => ∀ a ∈ s, Q a)
    (hq : q.Traces W o Q) : Traces W o (Parser.reread p q) Q := by
  intro c f ho
  have h := hp f ho
  rw [Parser.reread]
  cases hr : p c f with
  | ok s c' f' =>
    rw [hr] at h
    cases s with
    | none => exact hq f ho
    | some a => exact ⟨h.1, h.2 a rfl⟩
  | miss i e f' => trivial
  | fatal i x f' => rwa [hr] at h

section

variable {item : Rule α} {continues : Rule β}

/-- What a block reads behind an item, if blocks trace that start where less is ahead. What lets
    the block go on neither fails for good nor writes anything. -/
theorem resume {n owed : Nat} (hkeeps : Keeps continues) (hsilent : Silent continues)
    (hblock : ∀ ⦃c⦄ f, c.remaining < n → o.Ahead c →
      (Parser.block item continues (owed - 1) c f).Traced W c f fun as => ∀ a ∈ as, Q a) :
    Traces W o (Parser.resume item continues owed n) fun as => ∀ a ∈ as, Q a := by
  intro c f ho
  have hnext : Grows W c f (c.skipWhile Text.isBlank) f :=
    .of_declared_eq (Cursor.ahead_skip _ c) rfl
  have hcont := of_keeps (W := W) hkeeps hsilent f (ho.trans hnext.ahead)
  rw [Parser.resume]
  dsimp only
  split
  · exact ⟨.refl c f, List.forall_mem_nil _⟩
  · cases hr : continues (c.skipWhile Text.isBlank) f with
    | miss i e f' =>
      dsimp only
      split
      · exact ⟨.refl c f, List.forall_mem_nil _⟩
      · trivial
    | fatal i x f' =>
      rw [hr] at hcont
      exact hcont.back hnext
    | ok b c' f' =>
      have hsame : f'.declared = f.declared := hsilent (·.declared = f.declared) rfl hr
      dsimp only
      split
      · exact (hblock f' ‹_› (ho.trans hnext.ahead)).back
          (hnext.trans (.of_declared_eq (.refl _) hsame))
      · exact fun _ h => by cases h

/-- The items of a block trace one after the other, if what is between them claims nothing. -/
theorem block (hitem : item.Traces W o Q) (hkeeps : Keeps continues) (hsilent : Silent continues)
    (owed : Nat) : Traces W o (Parser.block item continues owed) fun as => ∀ a ∈ as, Q a := by
  have hline : Traces W o (item <* lineEnd) Q :=
    hitem.seqLeft (of_keeps keeps_lineEnd silent_lineEnd)
  intro c
  induction hm : c.remaining using Nat.strongRecOn generalizing owed c with
  | ind m ih =>
    intro f ho
    subst hm
    rw [block_eq]
    refine hline.bind (fun a ha => .map ?_) f ho
    refine (resume hkeeps hsilent fun d g hlt hd =>
      ih _ hlt (owed - 1) rfl g hd).mono fun as has => ?_
    exact List.forall_mem_cons.2 ⟨ha, has⟩

/-- A block answers behind its first item. -/
theorem of_block_eq_ok {owed : Nat} {as : List α} (hitem : item.Traces W o Q)
    (hkeeps : Keeps continues) (hsilent : Silent continues) (ho : o.Ahead c)
    (h : Parser.block item continues owed c f = .ok as c' f') :
    ∃ a c₁ f₁ c₂ f₂ as', item c f = .ok a c₁ f₁ ∧ Grows W c₁ f₁ c₂ f₂ ∧
      Parser.resume item continues owed c.remaining c₂ f₂ = .ok as' c' f' ∧
      Grows W c₂ f₂ c' f' ∧ as = a :: as' := by
  obtain ⟨a, c₂, f₂, as', hline, hrest, rfl⟩ := block_eq_ok h
  obtain ⟨a, c₁, f₁, hfirst, hline⟩ := of_bind_eq_ok hline
  obtain ⟨_, c₂, f₂, hend, hline⟩ := of_bind_eq_ok hline
  cases hline
  have h₁ := (hitem.of_ok ho hfirst).1
  have h₂ : Grows W c₁ f₁ c₂ f₂ :=
    ((of_keeps keeps_lineEnd silent_lineEnd).of_ok (ho.trans h₁.ahead) hend).1
  have hresume : Traces W o (Parser.resume item continues owed c.remaining)
      fun as => ∀ a ∈ as, Q a :=
    resume hkeeps hsilent fun c f _ ho => hitem.block hkeeps hsilent (owed - 1) f ho
  have h₃ := (hresume.of_ok ((ho.trans h₁.ahead).trans h₂.ahead) hrest).1
  exact ⟨a, c₁, f₁, c₂, f₂, as', hfirst, h₂, hrest, h₃, rfl⟩

end

/-- Operands joined by operators that keep what they answer. -/
theorem chainLeft {operand : Rule α} {operator : Rule (α → α → α)}
    (hoperand : operand.Traces W o Q)
    (hoperator : operator.Traces W o fun g => ∀ a b, Q a → Q b → Q (g a b)) :
    Traces W o (Parser.chainLeft operand operator) Q := by
  refine hoperand.bind fun acc hacc => ?_
  intro c
  induction hm : c.remaining using Nat.strongRecOn generalizing acc c with
  | ind m ih =>
    intro f ho
    subst hm
    have hlink : Traces W o (do let g ← operator; let a ← operand; Pure.pure (g acc a)) Q :=
      hoperator.bind fun g hg => hoperand.bind fun a ha => .pure (hg acc a hacc ha)
    have h := hlink f ho
    rw [Parser.chainRest]
    cases hr : (do let g ← operator; let a ← operand; Pure.pure (g acc a) : Rule α) c f with
    | miss i e f' => exact ⟨.refl c f, hacc⟩
    | fatal i x f' => rwa [hr] at h
    | ok acc' c' f' =>
      rw [hr] at h
      dsimp only
      split
      · rename_i hlt
        exact (ih _ hlt acc' h.2 rfl f' (ho.trans h.1.ahead)).back h.1
      · exact fun _ h => by cases h

end Rule.Traces

namespace Grammar

variable {registry : Registry} {inner : Nested} {k : Category}

/-! ## Names -/

/-- A name starts with no digit and no underscore, and is one word. -/
theorem traces_identifier : Rule.Traces W o identifier fun id =>
    id.toList ≠ [] ∧ (∀ x ∈ id.toList, Text.isWord x) ∧
      (∀ x ∈ id.toList.head?, x.isDigit = false) ∧ id.toList.head? ≠ some '_' := by
  have hrun : Rule.Traces W o (takeWhile1 Text.isWord "identifier") fun run =>
      run ≠ [] ∧ ∀ x ∈ run, Text.isWord x := by
    intro c f ho
    have h := Rule.Traces.of_keeps (W := W) (takes_takeWhile1 Text.isWord "identifier").keeps
      (silent_takeWhile1 _ _) f ho
    rw [takeWhile1] at h ⊢
    split
    · trivial
    · rename_i hne
      exact ⟨.of_declared_eq (Cursor.ahead_skip _ c) rfl, hne,
        List.all_eq_true.1 List.all_takeWhile⟩
  refine .map (hrun.filter.filter.mono fun run h => ?_)
  rw [String.toList_ofList]
  refine ⟨h.1.1.1, h.1.1.2, fun x hx => ?_, by simpa using h.2⟩
  have hdigit := h.1.2
  rw [hx] at hdigit
  simpa using hdigit

/-- A name that is no word of the grammar is one that a variable may have. -/
theorem traces_unreserved : Rule.Traces W o unreserved IsName :=
  traces_identifier.filter.mono fun name h =>
    ⟨h.1.1, h.1.2.1, h.1.2.2.1, by simpa using h.2⟩

/-- What is read as a variable is a name. -/
theorem traces_variableName : Rule.Traces W o variableName IsName :=
  traces_unreserved.seqLeft (.of_keeps (takes_char _).keeps.notFollowedBy silent_notFollowedBy)

/-! ## Arithmetic -/

/-- Nested rules that trace. The expressions that they answer are named. -/
structure Nested.Traces (W : Nat → Expr .text → Prop) (o : Cursor) (registry : Registry)
    (inner : Nested) : Prop where
  /-- Sums. -/
  sum : Rule.Traces W o inner.sum (Expr.Named registry)
  /-- Disjunctions. -/
  disjunction : Rule.Traces W o inner.disjunction (Expr.Named registry)
  /-- Truth values that may be negated. -/
  unary : Rule.Traces W o inner.unary (Expr.Named registry)
  /-- Texts as operands. -/
  operand : Rule.Traces W o inner.operand (Expr.Named registry)
  /-- What stands between quotes. -/
  quoted : Rule.Traces W o inner.quoted (Expr.Named registry)
  /-- Rests of lines of text. -/
  textLine : Rule.Traces W o inner.textLine (Expr.Named registry)

/-- Operands trace, whatever their category is. -/
theorem Nested.Traces.expr (h : inner.Traces W o registry) :
    (k : Category) → Rule.Traces W o (inner.expr k) (Expr.Named registry)
  | .number => h.sum
  | .boolean => h.disjunction
  | .text => h.operand

/-- What is written out mentions nothing. -/
theorem named_literal (v : k.Carrier) : (Expr.literal v).Named registry := by
  rw [Expr.Named, Expr.mentions_literal]
  exact List.forall_mem_nil _

/-- A variable mentions its name. -/
theorem named_variable {name : String} (h : IsName name) :
    (Expr.variable (k := k) name).Named registry :=
  List.forall_mem_singleton.2 ⟨trivial, List.forall_mem_singleton.2 h⟩

/-- A variable in a text mentions its name. -/
theorem named_interpolate {name : String} (h : IsName name) :
    (Expr.interpolate name).Named registry :=
  List.forall_mem_singleton.2 ⟨trivial, List.forall_mem_singleton.2 h⟩

/-- Simplifying mentions the same. -/
theorem named_simplify {e : Expr k} (h : e.Named registry) : e.simplify.Named registry := by
  rw [Expr.Named, Expr.mentions_simplify]
  exact h

/-- A token traces if what is behind the white space does. -/
theorem traces_lexeme {p : Rule α} {Q : α → Prop} (hp : p.Traces W o Q) :
    Rule.Traces W o (lexeme p) Q :=
  .after keeps_spaces silent_spaces fun _ =>
    .after keeps_sameOrIndented silent_sameOrIndented fun _ => hp

/-- An operator claims nothing and answers what it stands for. -/
theorem traces_operator {Q : α → Prop} {a : α} (ha : Q a) {spellings : List String}
    (h : ∀ s ∈ spellings, s ≠ "") : Rule.Traces W o (operator a spellings) Q :=
  .after (takes_lexeme (takes_spelled spellings h)).keeps
    (silent_lexeme (silent_spelled spellings)) fun _ => .pure ha

/-- A comparison sign claims nothing. -/
theorem traces_compareSign : Rule.Traces W o compareSign fun _ => True :=
  .of_keeps takes_compareSign.keeps silent_compareSign

/-- Parentheses trace, and answer what they enclose. -/
theorem traces_parenthesized {p : Rule α} {Q : α → Prop} (hp : p.Traces W o Q) :
    Rule.Traces W o (parenthesized p) Q :=
  .after (takes_lexeme (takes_char _)).keeps (silent_lexeme (silent_char _)) fun _ =>
    hp.bind fun _ ha => .after (takes_lexeme (takes_char _)).keeps (silent_lexeme (silent_char _))
      fun _ => .pure ha

/-- A variable has a name. -/
theorem traces_variableOf : Rule.Traces W o (variableOf k) (Expr.Named registry) := by
  have hrecord (i : Nat) (name : String) :
      Rule.Traces W o (record (·.useVariable i name k)) fun _ => True := .record fun _ => rfl
  exact .after keeps_position silent_position fun i => traces_variableName.bind fun name hname =>
    (hrecord i name).bind fun _ _ => .pure (named_variable hname)

/-- Arguments have the categories that were asked for, and what they mention has names. -/
theorem traces_arguments (h : inner.Traces W o registry) {wrongCount : Rule Unit}
    (hwrong : ∀ R, wrongCount.Traces W o R) (first : Bool) (ks : List Category) :
    Rule.Traces W o (arguments inner wrongCount first ks) fun args =>
      args.categories = ks ∧ Mentions registry args.mentions := by
  induction ks generalizing first with
  | nil => exact .pure ⟨rfl, List.forall_mem_nil _⟩
  | cons k ks ih =>
    rw [arguments]
    dsimp only
    have hargs : Rule.Traces W o (do
        let e ← inner.expr k
        let rest ← arguments inner wrongCount false ks
        return Args.cons e rest) fun args =>
          args.categories = k :: ks ∧ Mentions registry args.mentions :=
      (h.expr k).bind fun e he => (ih false).bind fun rest hrest =>
        .pure ⟨congrArg (k :: ·) hrest.1, mentions_append.2 ⟨he, hrest.2⟩⟩
    have hmark (x : Char) : Takes (lexeme (char x) : Rule Char) := takes_lexeme (takes_char x)
    refine .after (hmark _).keeps.wouldMatch silent_wouldMatch fun _ => .stopIf hwrong ?_
    split
    · exact hargs
    · exact .after (hmark _).keeps.optional (silent_lexeme (silent_char _)).optional fun _ =>
        .stopIf hwrong hargs

/-- What is written out claims nothing and mentions nothing. -/
theorem traces_literal {p : Rule k.Carrier} (hkeeps : Keeps p) (hsilent : Silent p) :
    Rule.Traces W o (Expr.literal <$> lexeme p) (Expr.Named registry) :=
  .map ((traces_lexeme (.of_keeps hkeeps hsilent)).mono fun v _ => named_literal v)

/-- A call is one of a binding, with arguments of its categories. -/
theorem traces_call (h : inner.Traces W o registry) :
    Rule.Traces W o (call registry inner k) (Expr.Named registry) := by
  rw [call]
  refine .after keeps_position silent_position fun i => traces_unreserved.bind fun name hname => ?_
  refine .after (takes_char _).keeps (silent_char _) fun _ => ?_
  cases hs : registry name with
  | none => exact .fatalAt fun _ h => by cases h
  | some s =>
    dsimp only
    have hwrong (R : Unit → Prop) : Rule.Traces W o
        (fatalAt i (.argumentCount name s.params.length) : Rule Unit) R :=
      .fatalAt fun _ h => by cases h
    refine .ite (fun _ _ _ _ => trivial) fun hk => ?_
    refine (traces_arguments h hwrong true s.params).bind fun args hargs => ?_
    refine .after (takes_lexeme (takes_char _)).keeps.optional
      (silent_lexeme (silent_char _)).optional fun _ => .stopIf hwrong (.pure ?_)
    refine mentions_cons.2 ⟨⟨?_, List.forall_mem_singleton.2 hname⟩, hargs.2⟩
    rw [Mention.Fits, hargs.1, ← Decidable.not_not.1 hk]
    exact hs

/-- What a factor mentions has names. -/
theorem traces_factor (h : inner.Traces W o registry) :
    Rule.Traces W o (factor registry inner) (Expr.Named registry) :=
  (traces_parenthesized h.sum).orElse <|
    (traces_literal takes_number.keeps silent_number).orElse <|
      (traces_lexeme (traces_call h)).orElse (traces_lexeme traces_variableOf)

/-- Operands joined by an operator. -/
theorem traces_chain {operand : Rule (Expr k)} {operator : Rule (Expr k → Expr k → Expr k)}
    (hoperand : operand.Traces W o (Expr.Named registry))
    (hoperator : operator.Traces W o fun g => ∀ a b, (g a b).mentions = a.mentions ++ b.mentions) :
    Rule.Traces W o (chainLeft operand operator) (Expr.Named registry) :=
  hoperand.chainLeft <| hoperator.mono fun g hg a b ha hb => by
    rw [Expr.Named, hg]
    exact mentions_append.2 ⟨ha, hb⟩

/-- What a product mentions has names. -/
theorem traces_product (h : inner.Traces W o registry) :
    Rule.Traces W o (product registry inner) (Expr.Named registry) :=
  traces_chain (traces_factor h) <|
    (traces_operator (fun _ _ => rfl) (by decide)).orElse
      (traces_operator (fun _ _ => rfl) (by decide))

/-- What a sum mentions has names. -/
theorem traces_sum (h : inner.Traces W o registry) :
    Rule.Traces W o (sum registry inner) (Expr.Named registry) :=
  traces_chain (traces_product h) <|
    (traces_operator (fun _ _ => rfl) (by decide)).orElse
      (traces_operator (fun _ _ => rfl) (by decide))

/-! ## Quotes -/

/-- Two texts put together mention what each of them does. -/
theorem named_concat {d e : Expr .text} (hd : d.Named registry) (he : e.Named registry) :
    (d.concat e).Named registry :=
  mentions_append.2 ⟨hd, he⟩

/-- What a substitution mentions has names. -/
theorem traces_substitution (h : inner.Traces W o registry) :
    Rule.Traces W o (substitution inner) (Expr.Named registry) := by
  have hclose : Rule.Traces W o (do let _ ← spaces; discard (char closeBrace) : Rule Unit)
      fun _ => True :=
    .after keeps_spaces silent_spaces fun _ =>
      .of_keeps (takes_char _).keeps.discard (silent_char _).discard
  refine .after (takes_char _).keeps (silent_char _) fun _ => ?_
  refine .orElse ?_ (.orElse ?_ (.orElse ?_ ?_))
  · refine .after keeps_spaces silent_spaces fun _ => traces_variableName.bind fun name hname => ?_
    exact hclose.bind fun _ _ => .pure (named_interpolate hname)
  · exact .map ((h.sum.seqLeft hclose).mono fun _ he => named_simplify he)
  · exact .map ((h.disjunction.seqLeft hclose).mono fun _ he => named_simplify he)
  · exact h.operand.seqLeft hclose

/-- What is mentioned between quotes has names. -/
theorem traces_quoted (h : inner.Traces W o registry) :
    Rule.Traces W o (quoted inner) (Expr.Named registry) := by
  refine .after (keeps_takeWhile _) (silent_takeWhile _) fun run => ?_
  refine .after (takes_satisfy _ _).keeps.lookAhead silent_lookAhead fun _ => ?_
  have hhead : (Expr.literal (k := .text) (String.ofList run)).Named registry := named_literal _
  refine .optionalBind (.after takes_escape.keeps silent_escape fun x => ?_) ?_
  · exact h.quoted.bind fun _ hrest =>
      .pure (named_concat (named_concat hhead (named_literal _)) hrest)
  · refine .optionalBind ((traces_substitution h).bind fun piece hpiece => ?_) (.pure hhead)
    exact h.quoted.bind fun _ hrest => .pure (named_concat (named_concat hhead hpiece) hrest)

/-- What a text in quotes mentions has names. -/
theorem traces_quote (h : inner.Traces W o registry) :
    Rule.Traces W o (quote inner) (Expr.Named registry) :=
  .after (takes_char _).keeps (silent_char _) fun _ => (traces_quoted h).bind fun _ he =>
    .after (takes_char _).keeps (silent_char _) fun _ => .pure (named_simplify he)

/-- What a text as an operand mentions has names. -/
theorem traces_operand (h : inner.Traces W o registry) :
    Rule.Traces W o (operand registry inner) (Expr.Named registry) :=
  (traces_lexeme (traces_quote h)).orElse <|
    (traces_lexeme (traces_call h)).orElse (traces_lexeme traces_variableOf)

/-! ## Logic -/

/-- A truth value in a word mentions nothing. -/
theorem traces_word (word : String) (hword : word ≠ "") (b : Bool) :
    Rule.Traces W o ((fun _ => Expr.literal (k := .boolean) b) <$> lexeme (keyword word))
      (Expr.Named registry) :=
  .map ((traces_lexeme (.of_keeps (takes_keyword hword).keeps (silent_keyword _))).mono fun _ _ =>
    named_literal _)

/-- What a truth value alone mentions has names. -/
theorem traces_boolean (h : inner.Traces W o registry) :
    Rule.Traces W o (boolean registry inner) (Expr.Named registry) :=
  (traces_parenthesized h.disjunction).orElse <|
    (traces_word "true" (by decide) true).orElse <|
      (traces_word "false" (by decide) false).orElse <|
        (traces_lexeme (traces_call h)).orElse (traces_lexeme traces_variableOf)

/-- Two variables compared mention both names. -/
theorem named_compareVariables {op : CompareOp} {l r : String} (hl : IsName l) (hr : IsName r) :
    (Expr.compareVariables op l r).Named registry :=
  List.forall_mem_singleton.2
    ⟨trivial, List.forall_mem_cons.2 ⟨hl, List.forall_mem_singleton.2 hr⟩⟩

/-- Two variables compared have names. -/
theorem traces_variableComparison :
    Rule.Traces W o variableComparison (Expr.Named registry) := by
  have hrecord (i : Nat) (l r : String) :
      Rule.Traces W o (record (·.linkVariables i l r)) fun _ => True := .record fun _ => rfl
  refine .after keeps_spaces silent_spaces fun _ => ?_
  refine .after keeps_sameOrIndented silent_sameOrIndented fun _ => ?_
  refine .after keeps_position silent_position fun i => traces_variableName.bind fun l hl => ?_
  refine traces_compareSign.bind fun op _ => (traces_lexeme traces_variableName).bind fun r hr => ?_
  refine .after takes_arithmeticSign.keeps.notFollowedBy silent_notFollowedBy fun _ => ?_
  exact (hrecord i l r).bind fun _ _ => .pure (named_compareVariables hl hr)

/-- Two operands compared mention what each of them does. -/
theorem named_compare {op : CompareOp} {l r : Expr k} (hl : l.Named registry)
    (hr : r.Named registry) : (Expr.compare k op l r).Named registry :=
  mentions_append.2 ⟨hl, hr⟩

/-- What two compared operands mention has names. -/
theorem traces_comparisonOf {p : Rule (Expr k)} (hp : p.Traces W o (Expr.Named registry)) :
    Rule.Traces W o (comparisonOf p) (Expr.Named registry) :=
  hp.bind fun _ hl => traces_compareSign.bind fun _ _ => hp.bind fun _ hr =>
    .pure (named_compare hl hr)

/-- What is read as truth values mentions names, if it is answered. -/
theorem traces_booleanReading (h : inner.Traces W o registry) :
    Rule.Traces W o (booleanReading registry inner) fun s => ∀ e ∈ s, e.Named registry := by
  have hunless (e : Expr .boolean) (he : e.Named registry) : Rule.Traces W o
      (do return if ← wouldMatch arithmeticSign then none else some e : Rule _)
        fun s => ∀ e ∈ s, e.Named registry :=
    .after takes_arithmeticSign.keeps.wouldMatch silent_wouldMatch fun b => .pure fun e' he' => by
      cases b <;> cases he'
      exact he
  refine .optionalBind ((traces_boolean h).bind fun l hl => ?_) (.pure nofun)
  refine .optionalBind (traces_compareSign.bind fun op _ => ?_) (hunless l hl)
  exact .optionalBind ((traces_boolean h).bind fun r hr => hunless _ (named_compare hl hr))
    (.pure nofun)

/-- What a relation mentions has names. -/
theorem traces_relation (h : inner.Traces W o registry) :
    Rule.Traces W o (relation registry inner) (Expr.Named registry) := by
  rw [relation, insteadOf_eq, insteadOf_eq]
  refine .reread traces_variableComparison.optional (.reread (traces_booleanReading h) ?_)
  exact (traces_comparisonOf (traces_sum h)).orElse (traces_comparisonOf (traces_operand h))

/-- What a negation mentions has names. -/
theorem traces_negation (h : inner.Traces W o registry) :
    Rule.Traces W o (negation inner) (Expr.Named registry) := by
  have hkeeps : Takes (tag "!" <* notFollowedBy (char '=') "'!'" : Rule String) :=
    (takes_tag (by decide)).seqLeft (takes_char _).keeps.notFollowedBy
  have hsilent : Silent (tag "!" <* notFollowedBy (char '=') "'!'" : Rule String) :=
    (silent_tag _).seqLeft silent_notFollowedBy
  refine .after (takes_lexeme ((takes_keyword (by decide)).orElse hkeeps)).keeps
    (silent_lexeme ((silent_keyword _).orElse hsilent)) fun _ => ?_
  exact h.unary.bind fun _ he => .pure he

/-- What is mentioned where a negation may be has names. -/
theorem traces_unary (h : inner.Traces W o registry) :
    Rule.Traces W o (unary registry inner) (Expr.Named registry) :=
  (traces_negation h).orElse (traces_relation h)

/-- What a conjunction mentions has names. -/
theorem traces_conjunction (h : inner.Traces W o registry) :
    Rule.Traces W o (conjunction registry inner) (Expr.Named registry) :=
  traces_chain (traces_unary h) (traces_operator (fun _ _ => rfl) (by decide))

/-- What an exclusive disjunction mentions has names. -/
theorem traces_exclusive (h : inner.Traces W o registry) :
    Rule.Traces W o (exclusive registry inner) (Expr.Named registry) :=
  traces_chain (traces_conjunction h) (traces_operator (fun _ _ => rfl) (by decide))

/-- What a disjunction mentions has names. -/
theorem traces_disjunction (h : inner.Traces W o registry) :
    Rule.Traces W o (disjunction registry inner) (Expr.Named registry) :=
  traces_chain (traces_exclusive h) (traces_operator (fun _ _ => rfl) (by decide))

/-! ## Lines of text -/

/-- What a line of text mentions has names. -/
theorem traces_textLine (h : inner.Traces W o registry) :
    Rule.Traces W o (textLine inner) (Expr.Named registry) := by
  refine .after takes_blanks1.keeps.optional silent_blanks1.optional fun _ => ?_
  refine .after (keeps_takeWhile _) (silent_takeWhile _) fun run => ?_
  refine .after keeps_eol.wouldMatch silent_wouldMatch fun _ => .ite (fun _ => ?_) fun _ => ?_
  · split <;> exact .pure (named_literal _)
  · exact (traces_substitution h).bind fun _ hpiece => h.textLine.bind fun _ hrest =>
      .pure (named_concat (named_concat (named_literal _) hpiece) hrest)

/-- Lines that are joined mention what each of them does. -/
theorem named_joinLines {es : List (Expr .text)} (h : ∀ e ∈ es, e.Named registry) :
    (joinLines es).Named registry := by
  cases es with
  | nil => exact named_literal _
  | cons e rest =>
    obtain ⟨he, hrest⟩ := List.forall_mem_cons.1 h
    refine named_simplify ?_
    clear h
    induction rest generalizing e with
    | nil => exact he
    | cons e' rest ih =>
      obtain ⟨he', hrest⟩ := List.forall_mem_cons.1 hrest
      exact ih _ (named_concat (named_concat he (named_literal _)) he') hrest

/-- What a text mentions has names. -/
theorem traces_text (h : inner.Traces W o registry) :
    Rule.Traces W o (text inner) (Expr.Named registry) :=
  .map (((traces_textLine h).block keeps_indented silent_indented 1).mono fun _ => named_joinLines)

/-- What a line of a prompt mentions has names. -/
theorem traces_promptLine (h : inner.Traces W o registry) :
    Rule.Traces W o (promptMark *> textLine inner) (Expr.Named registry) :=
  .after takes_promptMark.keeps silent_promptMark fun _ => traces_textLine h

/-- To look for a further line of a prompt takes nothing away. -/
theorem keeps_promptNext : Keeps (sameOrIndented <* lookAhead promptMark : Rule Nat) :=
  keeps_sameOrIndented.seqLeft takes_promptMark.keeps.lookAhead

/-- What comes before a line of a prompt claims nothing. -/
theorem silent_promptNext : Silent (sameOrIndented <* lookAhead promptMark : Rule Nat) :=
  silent_sameOrIndented.seqLeft silent_lookAhead

/-- What a prompt mentions has names. -/
theorem traces_prompt (h : inner.Traces W o registry) :
    Rule.Traces W o (prompt inner) (Expr.Named registry) :=
  .map (((traces_promptLine h).block keeps_promptNext silent_promptNext 1).mono fun _ =>
    named_joinLines)

/-! ## Statements -/

/-- A line of dialogue claims nothing. -/
theorem traces_dialog (h : inner.Traces W o registry) (mark : Char) :
    Rule.Traces W o (dialog inner mark) fun _ => True := by
  refine .atOwnIndent ?_
  refine .after takes_identifier.keeps.optional silent_identifier.optional fun _ => ?_
  refine .after keeps_blanks silent_blanks fun _ => .after (takes_char _).keeps (silent_char _) ?_
  refine fun _ => .after keeps_spaces silent_spaces fun _ => ?_
  exact (traces_text h).bind fun _ _ => .pure trivial

/-- Clearing the view claims nothing. -/
theorem silent_clear : Silent clear := by
  refine (silent_keyword _).bind fun _ => ?_
  refine (silent_blanks1.seqLeft silent_notFollowedBy).optional.bind fun asked => ?_
  cases asked with
  | none => exact .pure _
  | some _ =>
    exact ((silent_keyword _).map.orElse <|
      (silent_keyword _).map.orElse (silent_keyword _).map).map

/-- A jump claims nothing: it is noted beside the ids. -/
theorem traces_jump : Rule.Traces W o jump fun _ => True := by
  have hrecord (i : Nat) (id : String) :
      Rule.Traces W o (record (·.jumpTo i id)) fun _ => True := .record fun _ => rfl
  refine .after (takes_keyword (by decide)).keeps (silent_keyword _) fun _ => ?_
  refine .after takes_blanks1.keeps silent_blanks1 fun _ => ?_
  refine .after keeps_position silent_position fun i => ?_
  refine .after (takes_bracketed.orElse takes_identifier).keeps
    (silent_bracketed.orElse silent_identifier) fun id => ?_
  exact (hrecord i id).bind fun _ _ => .pure trivial

/-- A pause claims nothing. -/
theorem traces_pause (h : inner.Traces W o registry) :
    Rule.Traces W o (pause registry inner) fun _ => True :=
  .after (takes_keyword (by decide)).keeps (silent_keyword _) fun _ =>
    .after takes_blanks1.keeps silent_blanks1 fun _ => (traces_sum h).bind fun _ _ =>
      .after keeps_blanks silent_blanks fun _ =>
        .after takes_timeUnit.keeps silent_timeUnit fun _ => .pure trivial

/-- No statement claims an id. -/
theorem traces_node (h : inner.Traces W o registry) :
    Rule.Traces W o (node registry inner) fun _ => True := by
  have hword {w : String} (hw : w ≠ "") (m : Node) :
      Rule.Traces W o ((fun _ => m) <$> keyword w) fun _ => True :=
    .of_keeps (takes_keyword hw).keeps.map (silent_keyword _).map
  exact (traces_dialog h ':').map.orElse <| (traces_dialog h '+').map.orElse <|
    .orElse (.of_keeps takes_clear.keeps silent_clear) <| (hword (by decide) .choose).orElse <|
    .orElse traces_jump <| (hword (by decide) .wait).orElse <|
    (traces_pause h).orElse (hword (by decide) .leave)

end Grammar

end Dialogue
