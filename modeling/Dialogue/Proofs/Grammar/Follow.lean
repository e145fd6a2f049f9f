import Dialogue.Proofs.Compile.Log
import Dialogue.Proofs.Grammar.Shift
import Dialogue.Proofs.Grammar.Statement

/-!
# Passages that follow others
-/

namespace Dialogue

open Dialogue.Parser

namespace Outline

variable {E : Node → Prop} {n : Node} {o p : Outline} {id : String} {prompt : Expr .text}

/-- The last line of all that is one node, in a body or not, has a property. -/
def EndsIn (E : Node → Prop) (o : Outline) : Prop := ∃ n ∈ o.log.lines.getLast?, E n

/-- A single node ends in itself. -/
theorem EndsIn.of_node (h : E n) : (node n nil).EndsIn E := ⟨n, rfl, h⟩

/-- What is put before a passage does not change how it ends. -/
theorem EndsIn.append (h : p.EndsIn E) (o : Outline) : (o ++ p).EndsIn E := by
  obtain ⟨n, hn, hE⟩ := h
  refine ⟨n, ?_, hE⟩
  rw [log_append, Log.lines_append, List.getLast?_append, Option.mem_def.1 hn]
  rfl

/-- A label at the end ends as its body does. -/
theorem EndsIn.label (h : o.EndsIn E) : (label id o nil).EndsIn E := by
  obtain ⟨n, hn, hE⟩ := h
  refine ⟨n, ?_, hE⟩
  rw [log, log, Log.append_empty, Log.lines_append]
  exact hn

/-- An option at the end ends as its body does. -/
theorem EndsIn.option_last (h : o.EndsIn E) : (option id prompt o nil).EndsIn E := by
  obtain ⟨n, hn, hE⟩ := h
  refine ⟨n, ?_, hE⟩
  rw [log, log, Log.append_empty, Log.lines_append]
  exact hn

/-- An option before others is not what the passage ends in. -/
theorem EndsIn.option (h : p.EndsIn E) : (option id prompt o p).EndsIn E := by
  obtain ⟨n, hn, hE⟩ := h
  refine ⟨n, ?_, hE⟩
  rw [log, Log.lines_append, List.getLast?_append, Option.mem_def.1 hn]
  rfl

/-- Passages one after the other end as the last of them does. -/
theorem EndsIn.concat {os : List Outline} (h : ∃ o ∈ os.getLast?, o.EndsIn E) :
    (concat os).EndsIn E := by
  obtain ⟨o, ho, hE⟩ := h
  induction os with
  | nil => cases ho
  | cons p os ih =>
    change (p ++ Outline.concat os).EndsIn E
    cases os with
    | nil =>
      cases ho
      obtain ⟨n, hn, hE⟩ := hE
      refine ⟨n, ?_, hE⟩
      change n ∈ (p ++ nil).log.lines.getLast?
      rwa [log_append, log, Log.append_empty]
    | cons q os => exact (ih (by rwa [List.getLast?_cons_cons] at ho)).append p

end Outline

/-- Relations of places with references of a column that keep whole passages in step. Unlike
    those that keep single statements the same (`Levelled`), they may relate the end of the first
    source to a place where a line is ahead, if it is not indented. Where a statement starts in
    the first source, `I` holds. -/
structure InStep (R : Nat → List Region → Cursor → Cursor → Prop)
    (L : Nat → Cursor → Cursor → Prop) (I : Cursor → Prop) : Prop where
  /-- Expressions are the same. -/
  aligned (m) : Aligned (R m)
  /-- The lines of the references have the column. -/
  reference {m c d} : R m [] c d → c.reference.column = m ∧ d.reference.column = m
  /-- The references may be changed. -/
  withReference {m n c d r r'} : R m [] c d → r.column = n → r'.column = n →
    R n [] (c.withReference r) (d.withReference r')
  /-- So may they be where a line starts. -/
  withReference' {m n c d r r'} : L m c d → r.column = n → r'.column = n →
    L n (c.withReference r) (d.withReference r')
  /-- Where a statement starts does not depend on a reference. -/
  here {c r} : I c → I (c.withReference r)
  /-- White space may be taken if something is behind it. -/
  gap {m c d} : Behind R L m c d → (c.skipWhile Text.isSpace).rest ≠ [] →
    R m [] (c.skipWhile Text.isSpace) (d.skipWhile Text.isSpace)
  /-- Behind the white space before a line a statement starts. -/
  lead {m c d} : L m c d → I (c.skipWhile Text.isSpace)
  /-- The end of a line may be taken. -/
  lineEnd {m} {J : Facts → Facts → Prop} :
    Agree J (Behind R L m) (lineEnd : Rule Unit) lineEnd (L m)
  /-- Behind the blanks of a line that is not blank both sources go on. -/
  next {m c d} : L m c d → ¬c.atEnd → ¬d.atEnd ∧
    R m [] (c.skipWhile Text.isBlank) (d.skipWhile Text.isBlank) ∧
      (c.skipWhile Text.isBlank).rest ≠ [] ∧ I (c.skipWhile Text.isBlank)
  /-- Where the first source ends, the second one does, or a line is ahead that is not indented. -/
  stop {m c d} : L m c d → c.atEnd →
    d.atEnd ∨ (d.skipWhile Text.isBlank).column = 1 ∧ d.reference.column = m

/-- Where lines at the same level are related, they are in step. -/
theorem Levelled.inStep {R : Nat → List Region → Cursor → Cursor → Prop}
    {L : Nat → Cursor → Cursor → Prop} (hL : Levelled R L) : InStep R L fun _ => True where
  aligned := hL.aligned
  reference := hL.reference
  withReference := hL.withReference
  withReference' := hL.withReference'
  here := id
  gap h _ := hL.gap h
  lead _ := trivial
  lineEnd := @hL.lineEnd
  next h hmore := ⟨hL.atEnd h ▸ hmore, (hL.next h hmore).1, (hL.next h hmore).2, trivial⟩
  stop h hend := .inl (hL.atEnd h ▸ hend)

namespace Grammar

variable {registry : Registry} {inner inner' : Nested}

/-! ## Claims -/

/-- A statement of one line only claims ids. -/
theorem claims_node (n : Nat) : Claims (node registry (.upTo registry n)) :=
  .of_agree fun c _ _ => ⟨_, _, ⟨.refl c, rfl, rfl⟩,
    agree_node levelled_shift (concurLines_upTo levelled_shift n n)⟩

/-- A prompt only claims ids. -/
theorem claims_prompt (n : Nat) : Claims (prompt (.upTo registry n)) :=
  .of_agree fun c _ _ => ⟨_, _, ⟨.refl c, rfl, rfl⟩,
    agree_prompt levelled_shift (concurLines_upTo levelled_shift n n)⟩

/-- Nested rules that keep all claims. -/
structure Nested.Claim (registry : Registry) (inner : Nested) : Prop where
  /-- Statements. -/
  node : Claims (node registry inner)
  /-- Prompts. -/
  prompt : Claims (prompt inner)
  /-- Lines of one level. -/
  script : Claims inner.script

/-- A passage below only claims ids if the nested ones do. -/
theorem claims_below (h : inner.Claim registry) : Claims (below inner) :=
  (Claims.of_silent silent_lineEnd).bind fun _ => (Claims.of_silent silent_spaces).bind fun _ =>
    (Claims.of_silent silent_indented).bind fun _ => h.script

/-- A label claims its own id and those of its body. -/
theorem claims_label (h : inner.Claim registry) : Claims (label inner) :=
  (Claims.of_silent (silent_keyword _)).bind fun _ =>
    (Claims.of_silent silent_blanks1).bind fun _ => (Claims.of_silent silent_position).bind fun i =>
      (Claims.of_silent silent_bracketed).bind fun id => (Claims.declare i id).bind fun _ =>
        (claims_below h).bind fun _ => .pure _

/-- An option claims the ids of its body. -/
theorem claims_option (h : inner.Claim registry) : Claims (option inner) :=
  (Claims.of_silent silent_position).bind fun _ => h.prompt.bind fun _ =>
    (claims_below h).bind fun _ => .pure _

/-- Naming the options of a choice claims an id for each of them. -/
theorem claims_nameOptions (explicit : Option String) (us : List Unnamed) :
    Claims (nameOptions explicit us) := by
  induction us generalizing explicit with
  | nil => exact .pure _
  | cons u rest ih =>
    cases explicit with
    | some id => exact .map (ih none)
    | none =>
      rw [nameOptions]
      have hjournal : Claims (journal : Rule Facts) := fun ids c f _ c' f' hids h => by
        cases h
        exact hids
      refine hjournal.bind fun known => ?_
      have hname : Claims (do
          Rule.declare u.index (promptId u.prompt.text)
          (Outline.option (promptId u.prompt.text) u.prompt u.body ·) <$> nameOptions none rest) :=
        (Claims.declare _ _).bind fun _ => .map (ih none)
      dsimp only
      split
      · exact Claims.bind (fun _ _ _ _ _ _ _ h => by cases h) fun _ => hname
      · exact hname

/-- The options of a choice, with what names them. -/
def offers (inner : Nested) (explicit : Option String) : Rule Outline := do
  lineEnd
  let _ ← spaces
  let _ ← indented
  let options ← atOwnIndent (block (option inner) (same <* lookAhead (char '>')) 1)
  nameOptions explicit options

/-- A choice reads its id first, if it has one, and then its options. -/
theorem choice_eq (inner : Nested) : choice inner = (do
    let _ ← keyword "choice"
    let named ← optional do
      let _ ← blanks1
      let index ← position
      return (index, ← bracketed)
    match named with
    | some (index, id) => do
      Rule.declare index id
      offers inner (some id)
    | none => offers inner none) := by
  rw [choice]
  congr 1
  funext _
  congr 1
  funext named
  cases named <;> rfl

/-- The options of a choice claim ids only. -/
theorem claims_offers (h : inner.Claim registry) (explicit : Option String) :
    Claims (offers inner explicit) :=
  (Claims.of_silent silent_lineEnd).bind fun _ => (Claims.of_silent silent_spaces).bind fun _ =>
    (Claims.of_silent silent_indented).bind fun _ =>
      Claims.bind (.atOwnIndent (.block (claims_option h) (silent_same.seqLeft silent_lookAhead) 1))
        fun us => claims_nameOptions explicit us

/-- A choice only claims ids. -/
theorem claims_choice (h : inner.Claim registry) : Claims (choice inner) := by
  rw [choice_eq]
  refine (Claims.of_silent (silent_keyword _)).bind fun _ => ?_
  refine (Claims.of_silent (Silent.optional ?_)).bind fun named => ?_
  · exact silent_blanks1.bind fun _ => silent_position.bind fun _ =>
      silent_bracketed.bind fun _ => .pure _
  · cases named with
    | none => exact claims_offers h none
    | some named => exact (Claims.declare _ _).bind fun _ => claims_offers h _

/-- A line only claims ids, whatever its statement is. -/
theorem claims_line (h : inner.Claim registry) : Claims (line registry inner) :=
  .orElse (.map h.node) (.orElse (claims_choice h) (claims_label h))

/-- A script only claims ids. -/
theorem claims_script (h : inner.Claim registry) : Claims (script registry inner) :=
  (Claims.of_silent silent_spaces).bind fun _ =>
    Claims.bind (.atOwnIndent (.block (claims_line h) silent_same 0)) fun _ => .pure _

/-- At every depth, rules only claim ids. -/
theorem claim_upTo (n : Nat) : (Nested.upTo registry n).Claim registry := by
  refine ⟨claims_node n, claims_prompt n, ?_⟩
  induction n with
  | zero => exact fun _ _ _ _ _ _ _ h => nomatch h
  | succ n ih => exact claims_script ⟨claims_node n, claims_prompt n, ih⟩

/-! ## Passages -/

section

variable {base : List String} {R : Nat → List Region → Cursor → Cursor → Prop}
  {L : Nat → Cursor → Cursor → Prop} {I : Cursor → Prop} {E : Node → Prop} {m : Nat}

/-- A statement may start. -/
def Heads (R : Nat → List Region → Cursor → Cursor → Prop) (I : Cursor → Prop) (m : Nat)
    (c d : Cursor) : Prop :=
  R m [] c d ∧ I c

/-- A passage may be entered: its first line is indented more. -/
def Enters (R : Nat → List Region → Cursor → Cursor → Prop) (I : Cursor → Prop) (m : Nat)
    (c d : Cursor) : Prop :=
  Heads R I m c d ∧ c.rest ≠ [] ∧ c.skipWhile Text.isSpace = c ∧ m < c.column

/-- The next line starts behind its blanks. -/
theorem heads_next (hS : InStep R L I) {c d : Cursor} (hL : L m c d) (hmore : ¬c.atEnd) :
    ¬d.atEnd ∧ Heads R I m (c.skipWhile Text.isBlank) (d.skipWhile Text.isBlank) ∧
      (c.skipWhile Text.isBlank).rest ≠ [] :=
  have ⟨hmore', hR, hne, hI⟩ := hS.next hL hmore
  ⟨hmore', ⟨hR, hI⟩, hne⟩

/-- A line is of the same indentation in both sources or in none. -/
theorem agree_same (hS : InStep R L I) {J : Facts → Facts → Prop} :
    Agree J (fun c d => Heads R I m c d ∧ c.rest ≠ []) (Parser.same : Rule Nat) Parser.same
      fun _ _ => True :=
  ((agree_indentation (hS.aligned m) _ _).pre fun _ _ h => ⟨h.1.1, h.2⟩).mono fun _ _ _ => trivial

/-- What is read behind the end of a line, indented more. -/
theorem follows_deeper (hS : InStep R L I) {α : Type} {p q : Rule α} {Open : α → Prop}
    (hfed : Fed p) (h : Follows base (Enters R I m) p q Eq (L m) Open) :
    Follows base (Behind R L m)
      (do lineEnd; let _ ← spaces; let _ ← indented; p)
      (do lineEnd; let _ ← spaces; let _ ← indented; q) Eq (L m) Open := by
  have hfed' : Fed (do let _ ← indented; p : Rule α) := by
    refine .after (fun c j b c' j' hr hrest => ?_) fun _ => hfed
    simp only [indented, indentation] at hr
    split at hr <;> cases hr
    exact hrest
  -- Behind the white space there is something, or nothing is read.
  let P (c d : Cursor) : Prop :=
    (c.rest ≠ [] → Heads R I m c d) ∧ c.skipWhile Text.isSpace = c
  have hspaces (k l : Facts) : Agree (Facts.Idle k.declared l.declared) (L m)
      (discard spaces : Rule Unit) (discard spaces) P :=
    fun c d _ _ hcd hJ => .ok
      ⟨fun hne => ⟨hS.gap (.inr hcd) hne, hS.lead hcd⟩, c.skipWhile_skipWhile _⟩ hJ
  have hindented (k l : Facts) : Agree (Facts.Idle k.declared l.declared)
      (fun c d => P c d ∧ c.rest ≠ []) (indented : Rule Nat) indented (Enters R I m) := by
    rintro c d j k ⟨⟨hR, hskip⟩, hne⟩ hJ
    obtain ⟨hc, hd⟩ := hS.reference (hR hne).1
    simp only [indented, indentation, hc, hd, ← (hS.aligned m).column (hR hne).1 hne]
    split
    · rename_i hless
      exact .ok ⟨hR hne, hne, hskip, of_decide_eq_true hless⟩ hJ
    · exact .miss
  refine .after (fun _ _ => hS.lineEnd) fun _ => .afterAny hspaces fun _ _ => ?_
  exact .fed (.after hindented fun _ => h) hfed' fun c d hP hne => ⟨hP, hne⟩

/-- What is read with its own indentation. -/
theorem follows_own (hS : InStep R L I) {α β : Type} {p : Rule α} {q : Rule β}
    {V : α → β → Prop} {Open : α → Prop} {B : Nat → Prop}
    (h : ∀ k, B k → Follows base (Heads R I k) p q V (L k) Open) :
    Follows base (fun c d => Heads R I m c d ∧ c.rest ≠ [] ∧ B c.column) (atOwnIndent p)
      (atOwnIndent q) V (L m) Open := by
  rintro c d f g a c' f' ⟨hR, hne, hB⟩
  have hown : Follows base (fun c' d' => Heads R I m c' d' ∧ c'.rest ≠ [] ∧ c'.column = c.column)
      (atOwnIndent p) (atOwnIndent q) V (L m) Open := by
    refine (h c.column hB).atOwnIndent (fun c' d' ⟨⟨hR, hI⟩, hne, hcolumn⟩ => ?_)
      fun c' d' _ _ ⟨hR, _⟩ hL => ?_
    · refine ⟨hS.withReference hR hcolumn ?_, hS.here hI⟩
      exact ((hS.aligned m).column hR hne).symm.trans hcolumn
    · exact hS.withReference' hL (hS.reference hR.1).1 (hS.reference hR.1).2
  exact hown ⟨hR, hne, rfl⟩

/-- An item that ends behind the end of a line, or before it. -/
theorem follows_lineEnd (hS : InStep R L I) {α β : Type} {p : Rule α} {q : Rule β}
    {P : Cursor → Cursor → Prop} {V : α → β → Prop} {Open : α → Prop}
    (h : Follows base P p q V (Behind R L m) Open) :
    Follows base P (p <* lineEnd) (q <* lineEnd) V (L m) Open := by
  refine h.bind (fun _ => (Claims.of_silent silent_lineEnd).bind fun _ => .pure _)
    (fun a b hab => ?_) fun a c k b c' k' ha hend hr => ?_
  · exact .after (fun _ _ => hS.lineEnd) fun _ => .pure hab
  · -- At the end of the source nothing is taken any more.
    obtain ⟨_, c₁, k₁, hline, hr⟩ := of_bind_eq_ok hr
    cases hr
    obtain ⟨-, hok⟩ | ⟨-, i, e, hmiss⟩ := lineEnd_spec c k
    · rw [hok] at hline
      cases hline
      rw [Cursor.rest_skip, hend, List.drop_nil]
      exact ⟨rfl, ha⟩
    · rw [hmiss] at hline
      cases hline

/-! ## Labels and options -/

/-- Nested rules of which passages follow each other. -/
def Nested.Follow (base : List String) (R : Nat → List Region → Cursor → Cursor → Prop)
    (L : Nat → Cursor → Cursor → Prop) (I : Cursor → Prop) (E : Node → Prop)
    (inner inner' : Nested) : Prop :=
  ∀ m, 0 < m → Follows base (Enters R I m) inner.script inner'.script Eq (L m) (Outline.EndsIn E)

/-- A passage below follows itself if the nested scripts do. -/
theorem follows_below (hS : InStep R L I) (hfed : Fed inner.script)
    (h : inner.Follow base R L I E inner') (hm : 0 < m) :
    Follows base (Behind R L m) (below inner) (below inner') Eq (L m) (Outline.EndsIn E) :=
  follows_deeper hS hfed (h m hm)

/-- A label follows itself, and ends as its body does. -/
theorem follows_label (hS : InStep R L I) (hclaims : inner.Claim registry) (hfed : Fed inner.script)
    (h : inner.Follow base R L I E inner') (hm : 0 < m) :
    Follows base (R m []) (label inner) (label inner') Eq (L m) (Outline.EndsIn E) := by
  have hR := hS.aligned m
  refine .after (fun _ _ => agree_keyword hR (by decide)) fun _ => ?_
  refine .after (fun _ _ => agree_blanks1 hR) fun _ => ?_
  refine .afterAny (fun _ _ => .position) fun i i' => ?_
  refine .after (fun _ _ => agree_bracketed hR) fun id => ?_
  refine Follows.declare.andThen (fun _ => (claims_below hclaims).bind fun _ => .pure _)
    fun _ _ _ => ?_
  refine ((follows_below hS hfed h hm).pre fun _ _ => .inl).bind (fun _ => .pure _) ?_ ?_
  · rintro body _ rfl
    exact .pure rfl
  · rintro body c k _ _ _ hopen hend ⟨⟩
    exact ⟨hend, hopen.label⟩

/-- What an option says. -/
def Unnamed.view (o : Unnamed) : Expr .text × Outline := (o.prompt, o.body)

/-- An option follows itself but for the offsets, and ends as its body does. -/
theorem follows_option (hS : InStep R L I) (hclaims : inner.Claim registry)
    (hfed : Fed inner.script) (h : inner.Follow base R L I E inner') (hm : 0 < m)
    (hprompt : Follows base (R m []) (prompt inner) (prompt inner') Eq (L m) Never) :
    Follows base (R m []) (option inner) (option inner') (fun o o' => o.view = o'.view) (L m)
      fun o => o.body.EndsIn E := by
  refine .afterAny (fun _ _ => .position) fun i i' => ?_
  refine hprompt.andThen (fun _ => (claims_below hclaims).bind fun _ => .pure _) ?_
  rintro said _ rfl
  refine ((follows_below hS hfed h hm).pre fun _ _ => .inr).bind (fun _ => .pure _) ?_ ?_
  · rintro body _ rfl
    exact .pure rfl
  · rintro body c k _ _ _ hopen hend ⟨⟩
    exact ⟨hend, hopen⟩

/-- Options that say the same get the same ids. -/
theorem follows_nameOptions {P : Cursor → Cursor → Prop} (explicit : Option String)
    (us us' : List Unnamed) (hus : us.map Unnamed.view = us'.map Unnamed.view) :
    Follows base P (nameOptions explicit us) (nameOptions explicit us') Eq P Never := by
  induction us generalizing explicit us' with
  | nil =>
    obtain rfl := List.map_eq_nil_iff.1 hus.symm
    exact .pure rfl
  | cons u us ih =>
    cases us' with
    | nil => cases hus
    | cons u' us' =>
      obtain ⟨hu, hus⟩ := List.cons.inj hus
      obtain ⟨hprompt, hbody⟩ := Prod.mk.inj hu
      -- With the same id both go on with the options that are left.
      have hrest (id : String) : Follows base P
          (Outline.option id u.prompt u.body <$> nameOptions none us)
          (Outline.option id u.prompt u'.body <$> nameOptions none us') Eq P Never := by
        refine (ih none us' hus).map (fun o o' ho => ?_) fun _ h => h
        rw [hbody, ho]
      cases explicit with
      | some id =>
        rw [nameOptions, nameOptions, ← hprompt]
        exact hrest id
      | none =>
        rw [nameOptions, nameOptions, ← hprompt]
        exact .declareNew (by rintro _ _ _ _ _ ⟨⟩) (.map (claims_nameOptions none us)) (hrest _)

/-- The last option has the body of the last one that was read. -/
theorem endsIn_of_nameOptions {explicit : Option String} {us : List Unnamed} {c c' : Cursor}
    {f f' : Facts} {o : Outline} (h : nameOptions explicit us c f = .ok o c' f')
    (hus : ∃ u ∈ us.getLast?, u.body.EndsIn E) : c' = c ∧ o.EndsIn E := by
  obtain ⟨u, hu, hE⟩ := hus
  induction us generalizing explicit f o with
  | nil => cases hu
  | cons v us ih =>
    -- Whatever the id is, the last option is this one or one of those that are left.
    have hrest {id : String} {f : Facts} {o : Outline}
        (h : (Outline.option id v.prompt v.body <$> nameOptions none us) c f = .ok o c' f') :
        c' = c ∧ o.EndsIn E := by
      obtain ⟨p, c₁, f₁, hp, h⟩ := of_bind_eq_ok h
      cases h
      cases us with
      | nil =>
        cases hu
        cases hp
        exact ⟨rfl, .option_last hE⟩
      | cons w us =>
        obtain ⟨hc, hp⟩ := ih hp (by rwa [List.getLast?_cons_cons] at hu)
        exact ⟨hc, .option hp⟩
    cases explicit with
    | some id => exact hrest h
    | none =>
      rw [nameOptions] at h
      obtain ⟨known, c₁, f₁, hknown, h⟩ := of_bind_eq_ok h
      cases hknown
      dsimp only at h
      split at h
      · cases h
      · obtain ⟨_, c₂, f₂, hdeclare, h⟩ := of_bind_eq_ok h
        rw [Rule.declare] at hdeclare
        split at hdeclare <;> cases hdeclare
        exact hrest h

/-- Where nothing is left of the first source no line of the same indentation is ahead. -/
theorem same_stops (hS : InStep R L I) (hm : 1 < m) {c d : Cursor} (hL : L m c d)
    (hend : c.atEnd) :
    d.atEnd ∨ ∀ f, ∃ i e f', (same : Rule Nat) (d.skipWhile Text.isBlank) f = .miss i e f' := by
  refine (hS.stop hL hend).imp_right fun ⟨hone, href⟩ f => ?_
  have hless : (d.skipWhile Text.isBlank).column ≠ (d.skipWhile Text.isBlank).reference.column := by
    rw [hone]
    exact fun h => Nat.ne_of_lt hm (h.trans href)
  simp only [same, indentation]
  rw [if_neg fun h => hless (of_decide_eq_true h)]
  exact ⟨_, _, _, rfl⟩

/-- A block of options follows itself, and ends as the last of them does. -/
theorem follows_options (hS : InStep R L I) (hclaims : inner.Claim registry)
    (hfed : Fed inner.script) (h : inner.Follow base R L I E inner') (hm : 1 < m)
    (hprompt : Follows base (R m []) (prompt inner) (prompt inner') Eq (L m) Never) :
    Follows base (R m []) (block (option inner) (same <* lookAhead (char '>')) 1)
      (block (option inner') (same <* lookAhead (char '>')) 1)
      (fun us us' => us.map Unnamed.view = us'.map Unnamed.view) (L m)
      fun us => ∃ u ∈ us.getLast?, u.body.EndsIn E := by
  refine .block (N := fun c d => R m [] c d ∧ c.rest ≠ []) (Nat.le_refl 1) (claims_option hclaims)
    (silent_same.seqLeft silent_lookAhead) ?_ (fun c d hL hend => ?_) (fun c d hL hmore => ?_)
    (fun _ _ => ?_) fun _ _ h => h.1
  · have hoption := follows_option hS hclaims hfed h (Nat.lt_of_succ_lt hm) hprompt
    exact follows_lineEnd hS (hoption.mono (fun _ _ h => h) fun _ _ => .inr)
  · refine (same_stops hS hm hL hend).imp_right fun hmiss f => ?_
    obtain ⟨i, e, f', hmiss⟩ := hmiss f
    refine ⟨i, e, f', ?_⟩
    change (same _ _).bind _ = _
    rw [hmiss]
    rfl
  · obtain ⟨hmore', hR, hne, -⟩ := hS.next hL hmore
    exact ⟨hmore', hR, hne⟩
  · exact (agree_indentation (hS.aligned m) _ _).seqLeft
      ((agree_sign (hS.aligned m) (by decide) (by decide)).lookAhead.mono fun _ _ _ => trivial)

/-- A prompt needs something ahead. -/
theorem fed_prompt : Fed (prompt inner) :=
  (Fed.block ((Fed.of_starved takes_promptMark.starved).bind)).bind

/-- Options with their ids follow themselves. -/
theorem follows_offers (hS : InStep R L I) (hclaims : inner.Claim registry)
    (hfed : Fed inner.script) (h : inner.Follow base R L I E inner') (hm : 0 < m)
    (explicit : Option String)
    (hprompt : ∀ k, 1 < k → Follows base (R k []) (prompt inner) (prompt inner') Eq (L k) Never) :
    Follows base (Behind R L m) (offers inner explicit) (offers inner' explicit) Eq (L m)
      (Outline.EndsIn E) := by
  have hoptions : Follows base (Enters R I m)
      (atOwnIndent (block (option inner) (same <* lookAhead (char '>')) 1))
      (atOwnIndent (block (option inner') (same <* lookAhead (char '>')) 1))
      (fun us us' => us.map Unnamed.view = us'.map Unnamed.view) (L m)
      fun us => ∃ u ∈ us.getLast?, u.body.EndsIn E := by
    refine (follows_own hS fun k hk => ?_).pre fun c d h => ⟨h.1, h.2.1, h.2.2.2⟩
    have hk : 1 < k := Nat.lt_of_le_of_lt hm hk
    exact (follows_options hS hclaims hfed h hk (hprompt k hk)).pre fun _ _ h => h.1
  have hfed' : Fed (option inner) :=
    .after (fun _ _ _ _ _ hr hrest => by cases hr; exact hrest) fun _ => fed_prompt.bind
  refine follows_deeper hS hfed'.block.atOwnIndent.bind ?_
  refine hoptions.bind (fun us => claims_nameOptions explicit us)
    (fun us us' hus => (follows_nameOptions explicit us us' hus).closed) ?_
  intro us c k o c' k' hus hend hr
  obtain ⟨rfl, ho⟩ := endsIn_of_nameOptions hr hus
  exact ⟨hend, ho⟩

/-- What may be missing is mapped where it is there. -/
theorem map_optional {α β : Type} (φ : α → β) (p : Rule α) :
    Option.map φ <$> optional p = optional (φ <$> p) := by
  have hreply (r : Reply Facts α) (c : Cursor) (f : Facts) :
      ((replying r).optional c f).map (Option.map φ) = (replying (r.map φ)).optional c f := by
    cases r <;> rfl
  funext c f
  exact hreply (p c f) c f

/-- A choice follows itself, with or without an id of its own. -/
theorem follows_choice (hS : InStep R L I) (hclaims : inner.Claim registry)
    (hfed : Fed inner.script) (h : inner.Follow base R L I E inner') (hm : 0 < m)
    (hprompt : ∀ k, 1 < k → Follows base (R k []) (prompt inner) (prompt inner') Eq (L k) Never) :
    Follows base (R m []) (choice inner) (choice inner') Eq (L m) (Outline.EndsIn E) := by
  have hR := hS.aligned m
  have hoffers (explicit : Option String) : Follows base (R m []) (offers inner explicit)
      (offers inner' explicit) Eq (L m) (Outline.EndsIn E) :=
    (follows_offers hS hclaims hfed h hm explicit hprompt).pre fun _ _ => .inl
  rw [choice_eq, choice_eq]
  refine .after (fun _ _ => agree_keyword hR (by decide)) fun _ => ?_
  refine .afterView (φ := Option.map Prod.snd) (ψ := Option.map Prod.snd) (R := R m [])
    (fun _ _ => ?_) fun named named' hnamed => ?_
  · rw [map_optional]
    simp only [map_bind]
    exact .optional <| (agree_blanks1 hR).bind fun _ => Agree.bindAny .position fun _ _ =>
      (agree_bracketed hR).bind fun _ => .pure
  · match named, named', hnamed with
    | none, none, _ => exact hoffers none
    | some (i, id), some (i', _), rfl =>
      exact Follows.declare.andThen (fun _ => claims_offers hclaims _) fun _ _ _ => hoffers _

/-! ## Lines -/

/-- A line fails where nothing is ahead. -/
theorem starved_line : Starved (line registry inner) := by
  have hword {w : String} (hw : w ≠ "") : Starved (keyword w : Rule String) :=
    (takes_keyword hw).starved
  have hdialog (mark : Char) : Starved (dialog inner mark) := starved_dialog.atOwnIndent
  have hnode : Starved (node registry inner) :=
    (hdialog ':').map.orElse <| (hdialog '+').map.orElse <| takes_clear.starved.orElse <|
      (hword (by decide)).map.orElse <| takes_jump.starved.orElse <|
      (hword (by decide)).map.orElse <| (hword (by decide)).bind.orElse (hword (by decide)).map
  exact hnode.map.orElse ((hword (by decide)).bind.orElse (hword (by decide)).bind)

/-- A script needs something ahead. -/
theorem fed_script : Fed (script registry inner) := by
  refine .after (fun c f b c' f' hr hrest => ?_) fun _ =>
    (Fed.block (Fed.of_starved starved_line)).atOwnIndent.bind
  cases hr
  rw [Cursor.rest_skip, hrest, List.drop_nil]

/-- At every depth a script needs something ahead. -/
theorem fed_upTo (n : Nat) : Fed (Nested.upTo registry n).script :=
  match n with
  | 0 => nofun
  | _ + 1 => fed_script

/-- The lines of a passage, from a place where they start. -/
theorem follows_lines (hS : InStep R L I) (hclaims : inner.Claim registry) (hm : 1 < m)
    (hline : Follows base (Heads R I m) (line registry inner <* lineEnd)
      (line registry inner' <* lineEnd) Eq (L m) (Outline.EndsIn E)) :
    Follows base (Heads R I m) (block (line registry inner) same 0)
      (block (line registry inner') same 0) Eq (L m) fun os => ∃ o ∈ os.getLast?, o.EndsIn E := by
  have hblock : Follows base (Heads R I m) (block (line registry inner) same 0)
      (block (line registry inner') same 0) (fun os os' => os.map id = os'.map id) (L m)
      fun os => ∃ o ∈ os.getLast?, o.EndsIn E :=
    .block (N := fun c d => Heads R I m c d ∧ c.rest ≠ []) (Nat.zero_le 1) (claims_line hclaims)
      silent_same hline (fun _ _ => same_stops hS hm) (fun _ _ => heads_next hS)
      (fun _ _ => agree_same hS) fun _ _ h => h.1
  refine hblock.mono (fun os os' h => ?_) fun _ _ h => h
  rwa [List.map_id, List.map_id] at h

/-- A script follows itself if each of its lines does. -/
theorem follows_script (hS : InStep R L I) (hclaims : inner.Claim registry)
    (hline : ∀ k, 1 < k → Follows base (Heads R I k) (line registry inner <* lineEnd)
      (line registry inner' <* lineEnd) Eq (L k) (Outline.EndsIn E)) (hm : 0 < m) :
    Follows base (Enters R I m) (script registry inner) (script registry inner') Eq (L m)
      (Outline.EndsIn E) := by
  have hspaces (k l : Facts) : Agree (Facts.Idle k.declared l.declared) (Enters R I m)
      (discard spaces : Rule Unit) (discard spaces)
      fun c d => Heads R I m c d ∧ c.rest ≠ [] ∧ m < c.column := by
    rintro c d _ _ ⟨⟨hR, hI⟩, hne, hskip, hless⟩ hJ
    have hgap := hS.gap (.inl hR) (by rwa [hskip])
    refine .ok ?_ hJ
    change Heads R I m (c.skipWhile Text.isSpace) _ ∧ (c.skipWhile Text.isSpace).rest ≠ [] ∧
      m < (c.skipWhile Text.isSpace).column
    rw [hskip] at hgap ⊢
    exact ⟨⟨hgap, hI⟩, hne, hless⟩
  refine .afterAny hspaces fun _ _ => ?_
  refine (follows_own hS fun k hk => follows_lines hS hclaims (Nat.lt_of_le_of_lt hm hk)
    (hline k (Nat.lt_of_le_of_lt hm hk))).bind (fun _ => .pure _) ?_ ?_
  · rintro os _ rfl
    exact .pure rfl
  · rintro os c f _ _ _ hopen hend ⟨⟩
    exact ⟨hend, .concat hopen⟩

/-- A line that is a label is no choice. -/
theorem choice_of_label {c c' : Cursor} {f f' : Facts} {w : String}
    (h : keyword "label" c f = .ok w c' f') (g : Facts) :
    ∃ i e g', choice inner c g = .miss i e g' := by
  have hword : ∃ xs, c.rest = 'l' :: xs := by
    rw [keyword] at h
    split at h
    · rename_i hpre
      obtain ⟨ys, hys⟩ := List.isPrefixOf_iff_prefix.1 (Bool.and_eq_true_iff.1 hpre).1
      exact ⟨_, hys.symm⟩
    · cases h
  obtain ⟨xs, hrest⟩ := hword
  have hmiss : keyword "choice" c g = .miss c.index ["choice"] g := by
    rw [keyword, hrest]
    rfl
  exact ⟨_, _, _, by rw [choice, bind_apply, hmiss]; rfl⟩

/-- Choices and labels. -/
theorem follows_blocks (hS : InStep R L I) (hclaims : inner.Claim registry)
    (hfed : Fed inner.script) (h : inner.Follow base R L I E inner') (hm : 0 < m)
    (hprompt : ∀ k, 1 < k → Follows base (R k []) (prompt inner) (prompt inner') Eq (L k) Never) :
    Follows base (R m []) (choice inner <|> label inner) (choice inner' <|> label inner') Eq (L m)
      (Outline.EndsIn E) := by
  refine (follows_choice hS hclaims hfed h hm hprompt).orElse
    (follows_label hS hclaims hfed h hm) ?_
  rintro c d f g i e f' o c' f'' hR - hlabel
  obtain ⟨w, c₁, f₁, hword, -⟩ := of_bind_eq_ok hlabel
  have hlabel : OfLine (keyword "label" : Rule String) := ofLine_keyword (by decide)
  have hsame := hlabel f g ((hS.aligned m).line hR)
  rw [hword] at hsame
  generalize hd : keyword "label" d g = r at hsame
  cases hsame with
  | ok => exact .inr (choice_of_label hd g)

end

/-! ## Rules nested to any depths -/

section

variable {base : List String} {R : Nat → List Region → Cursor → Cursor → Prop}
  {L : Nat → Cursor → Cursor → Prop} {I : Cursor → Prop} {E : Node → Prop} {m : Nat}

/-- If lines follow where those nested in them do, they do to any depths. -/
theorem follow_upTo (hS : InStep R L I) (hline : ∀ {n n' m}, 0 < m →
      (Nested.upTo registry n).Follow base R L I E (.upTo registry n') →
      Follows base (Heads R I m) (line registry (.upTo registry n) <* lineEnd)
        (line registry (.upTo registry n') <* lineEnd) Eq (L m) (Outline.EndsIn E)) (n n' : Nat) :
    (Nested.upTo registry n).Follow base R L I E (.upTo registry n') := by
  induction n generalizing n' with
  | zero => exact fun _ _ _ _ _ _ _ _ _ _ _ h => nomatch h
  | succ n ih =>
    cases n' with
    | zero => exact fun _ _ _ _ _ _ _ _ _ _ _ _ _ => .inr (.inl ⟨_, _, rfl⟩)
    | succ n' =>
      exact fun m hm => follows_script hS (claim_upTo n)
        (fun k hk => hline (Nat.lt_of_succ_lt hk) (ih n')) hm

/-- Where statements are read alike lines follow. -/
theorem follows_line (hL : Levelled R L) {n n' : Nat} (hm : 0 < m)
    (h : (Nested.upTo registry n).Follow base R L (fun _ => True) E (.upTo registry n')) :
    Follows base (Heads R (fun _ => True) m) (line registry (.upTo registry n) <* lineEnd)
      (line registry (.upTo registry n') <* lineEnd) Eq (L m) (Outline.EndsIn E) := by
  have hconcur (k l : Facts) : (Nested.upTo registry n).ConcurLines R k.declared l.declared
      (.upTo registry n') := concurLines_upTo hL n n'
  have hprompt (k : Nat) : Follows base (R k []) (prompt (.upTo registry n))
      (prompt (.upTo registry n')) Eq (L k) Never :=
    .of_agree fun f g => agree_prompt hL (hconcur f g)
  have hnode (k l : Facts) : Agree (Facts.Idle k.declared l.declared) (R m [])
      ((fun n => Outline.node n .nil) <$> node registry (.upTo registry n))
      ((fun n => Outline.node n .nil) <$> node registry (.upTo registry n')) (Behind R L m) :=
    (agree_node hL (hconcur k l)).map
  have hblocks := follows_blocks hL.inStep (claim_upTo n) (fed_upTo n) h hm fun k _ => hprompt k
  refine Follows.pre ?_ fun _ _ h => h.1
  refine follows_lineEnd hL.inStep <| (Follows.of_agree hnode).orElse
    (hblocks.mono (fun _ _ h => h) fun _ _ => .inr) ?_
  intro c d f g i e f' o c' f'' hR hmiss _
  have h := hnode f g hR ⟨rfl, rfl⟩
  rw [hmiss] at h
  generalize (_ <$> node registry (.upTo registry n') : Rule Outline) d g = r at h ⊢
  cases h with
  | miss => exact .inr ⟨_, _, _, rfl⟩
  | endlessRight => exact .inl ⟨_, _, rfl⟩

end

end Grammar

end Dialogue
