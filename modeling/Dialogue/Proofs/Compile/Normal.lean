import Dialogue.Proofs.Compile.Agreement
import Dialogue.Proofs.Expr.Normal

/-!
# Compiled expressions

The rules for expressions answer what is written, not a normal form: quotes are simplified early
and put into larger texts, arguments are left to whatever the call is part of. The rules for
statements simplify last. Joined lines are a normal form whatever the lines are
(`normal_joinLines`), and so is the amount of a pause times its unit. So every node of an outline
has a normal form, by induction on the depth of its passages (`answers_upTo`), and the graph has no
others (`compile_normal`).
-/

namespace Dialogue

open Dialogue.Parser

/-- The expression of the node, if it has one, is a normal form. -/
def Node.Normal (n : Node) : Prop := ∀ e ∈ n.expr?, e.2.Normal

/-- The expressions of all nodes are normal forms. -/
def Outline.Normal (o : Outline) : Prop := ∀ n ∈ o.nodes, n.Normal

namespace Outline

/-- Two passages have the nodes of the one and then those of the other. -/
theorem nodes_append (o p : Outline) : (o ++ p).nodes = o.nodes ++ p.nodes := by
  change (o.append p).nodes = _
  induction o with
  | nil => rfl
  | node n rest ih => rw [append, nodes, nodes, ih, List.cons_append]
  | label id body rest _ ih => rw [append, nodes, nodes, ih, List.append_assoc]
  | option id prompt body rest _ ih =>
    rw [append, nodes, nodes, ih, List.cons_append, List.append_assoc]

/-- An empty passage is normal. -/
theorem normal_nil : nil.Normal := nofun

/-- Two normal passages one after the other are normal. -/
theorem Normal.append {o p : Outline} (ho : o.Normal) (hp : p.Normal) : (o ++ p).Normal := by
  rw [Normal, nodes_append]
  exact List.forall_mem_append.2 ⟨ho, hp⟩

/-- Any number of normal passages in a row is normal. -/
theorem Normal.concat {os : List Outline} (h : ∀ o ∈ os, o.Normal) :
    (Outline.concat os).Normal := by
  induction os with
  | nil => exact normal_nil
  | cons o os ih =>
    obtain ⟨ho, h⟩ := List.forall_mem_cons.1 h
    exact ho.append (ih h)

/-- A label is normal if its body is. -/
theorem Normal.label {id : String} {body rest : Outline} (hbody : body.Normal)
    (hrest : rest.Normal) : (Outline.label id body rest).Normal :=
  List.forall_mem_append.2 ⟨hbody, hrest⟩

/-- An option is normal if its prompt and its body are. -/
theorem Normal.option {id : String} {prompt : Expr .text} {body rest : Outline}
    (hprompt : prompt.Normal) (hbody : body.Normal) (hrest : rest.Normal) :
    (Outline.option id prompt body rest).Normal := by
  refine List.forall_mem_cons.2 ⟨?_, List.forall_mem_append.2 ⟨hbody, hrest⟩⟩
  rintro _ ⟨⟩
  exact hprompt

end Outline

/-! ## What rules answer -/

/-- Whatever the rule answers satisfies `Q`. -/
def Rule.Answers {α : Type} (p : Rule α) (Q : α → Prop) : Prop :=
  Triple (fun _ => True) p fun a _ => Q a

namespace Rule.Answers

variable {α β : Type} {p q : Rule α} {Q : α → Prop}

/-- Nothing is to be known of an answer. -/
theorem trivial : p.Answers fun _ => True := fun _ _ _ _ _ _ _ => True.intro

/-- What is answered first is known where the second rule starts. -/
theorem bind {f : α → Rule β} {R : β → Prop} (hp : p.Answers Q) (hf : ∀ a, Q a → (f a).Answers R) :
    Answers (p >>= f) R :=
  Triple.bind hp fun a _ _ _ _ _ ha h => hf a ha True.intro h

/-- What is read before a rule does not matter. -/
theorem after {f : α → Rule β} {R : β → Prop} (hf : ∀ a, (f a).Answers R) : Answers (p >>= f) R :=
  bind trivial fun a _ => hf a

/-- An answer that reads nothing is known. -/
theorem pure {a : α} (h : Q a) : Answers (Pure.pure a : Rule α) Q := Triple.pure fun _ _ => h

/-- What is known of an answer is known of what it is mapped to. -/
theorem map {g : α → β} {R : β → Prop} (hp : p.Answers fun a => R (g a)) : Answers (g <$> p) R :=
  Triple.map hp

/-- An alternative answers what both of its rules answer. -/
theorem orElse (hp : p.Answers Q) (hq : q.Answers Q) : Answers (p <|> q) Q := Triple.orElse hp hq

/-- A rule answers the like at its own column. -/
theorem atOwnIndent (hp : p.Answers Q) : Answers (Parser.atOwnIndent p) Q := Triple.atOwnIndent hp

/-- A block answers items of its rule. -/
theorem block {continues : Rule β} {owed : Nat} (hp : p.Answers Q) :
    Answers (Parser.block p continues owed) fun as => ∀ a ∈ as, Q a := by
  refine (Triple.block (I := fun as _ => ∀ a ∈ as, Q a) (fun as => ?_) fun as => ?_).mono
    (fun _ _ h => h.2) |>.pre fun _ _ _ h => nomatch h
  · have hall : Triple (fun _ => ∀ a ∈ as, Q a) p fun b _ => (∀ a ∈ as, Q a) ∧ Q b :=
      fun _ _ _ _ _ has h => ⟨has, hp True.intro h⟩
    refine hall.seqLeft fun b => ?_
    rintro _ _ _ _ _ ⟨has, hb⟩ _
    exact List.forall_mem_append.2 ⟨has, List.forall_mem_singleton.2 hb⟩
  · exact fun _ _ _ _ _ has _ => has

end Rule.Answers

/-! ## Statements -/

namespace Grammar

variable {registry : Registry} {inner : Nested}

/-- Joined lines are a normal form. -/
theorem normal_joinLines (es : List (Expr .text)) : (joinLines es).Normal := by
  cases es with
  | nil => exact Expr.normal_literal _
  | cons e es => exact Expr.normal_simplify _

/-- A text is answered in normal form. -/
theorem answers_text : (text inner).Answers Expr.Normal :=
  .map fun _ _ _ _ _ _ _ => normal_joinLines _

/-- A prompt is answered in normal form. -/
theorem answers_prompt : (prompt inner).Answers Expr.Normal :=
  .map fun _ _ _ _ _ _ _ => normal_joinLines _

/-- What a speaker says is answered in normal form. -/
theorem answers_dialog (mark : Char) :
    (dialog inner mark).Answers fun said => said.2.Normal :=
  .atOwnIndent <| .after fun _ => .after fun _ => .after fun _ => .after fun _ =>
    answers_text.bind fun _ h => .pure h

/-- Clearing has no expression at all. -/
theorem answers_clear : clear.Answers Node.Normal := by
  refine .after fun _ => .after fun o => ?_
  cases o with
  | none => exact .pure nofun
  | some _ => exact .map fun _ _ _ _ _ _ _ => nofun

/-- The expressions of a statement are simplified last. -/
theorem answers_node : (node registry inner).Answers Node.Normal := by
  have hexpr {k : Category} {e : Expr k} {n : Node} (hn : n.expr? = some ⟨k, e⟩) (he : e.Normal) :
      n.Normal := by
    intro x hx
    obtain rfl := Option.some.inj (hn.symm.trans hx)
    exact he
  have hbare {α : Type} {p : Rule α} {n : Node} (hn : n.expr? = none) :
      Rule.Answers ((fun _ => n) <$> p) Node.Normal :=
    .map fun _ _ _ _ _ _ _ e he => nomatch hn.symm.trans he
  have hjump : jump.Answers Node.Normal :=
    .after fun _ => .after fun _ => .after fun _ => .after fun _ => .after fun _ => .pure nofun
  have hpause : (pause registry inner).Answers Node.Normal :=
    .after fun _ => .after fun _ => .after fun _ => .after fun _ => .after fun _ =>
      .pure (hexpr rfl (Expr.normal_simplify _))
  exact .orElse (.map ((answers_dialog _).mono fun _ _ h => hexpr rfl h)) <|
    .orElse (.map ((answers_dialog _).mono fun _ _ h => hexpr rfl h)) <|
    answers_clear.orElse <| (hbare rfl).orElse <| hjump.orElse <| (hbare rfl).orElse <|
    hpause.orElse <| hbare rfl

/-! ## Passages -/

/-- A passage below is normal if the nested ones are. -/
theorem answers_below (hinner : inner.script.Answers Outline.Normal) :
    (below inner).Answers Outline.Normal :=
  .after fun _ => .after fun _ => .after fun _ => hinner

/-- A label is normal if the nested passages are. -/
theorem answers_label (hinner : inner.script.Answers Outline.Normal) :
    (label inner).Answers Outline.Normal :=
  .after fun _ => .after fun _ => .after fun _ => .after fun _ => .after fun _ =>
    (answers_below hinner).bind fun _ h => .pure (h.label Outline.normal_nil)

/-- The expressions of an option that has no id yet are normal forms. -/
def Unnamed.Normal (o : Unnamed) : Prop := o.prompt.Normal ∧ o.body.Normal

/-- An option and its prompt are normal if the nested passages are. -/
theorem answers_option (hinner : inner.script.Answers Outline.Normal) :
    (option inner).Answers Unnamed.Normal :=
  .after fun _ => answers_prompt.bind fun _ hprompt =>
    (answers_below hinner).bind fun _ hbody => .pure ⟨hprompt, hbody⟩

/-- Naming options leaves their prompts and bodies as they are. -/
theorem answers_nameOptions (explicit : Option String) {os : List Unnamed}
    (h : ∀ o ∈ os, o.Normal) : (nameOptions explicit os).Answers Outline.Normal := by
  induction os generalizing explicit with
  | nil => cases explicit <;> exact .pure Outline.normal_nil
  | cons o rest ih =>
    obtain ⟨ho, h⟩ := List.forall_mem_cons.1 h
    have hrest (id : String) :
        Rule.Answers (Outline.option id o.prompt o.body <$> nameOptions none rest) Outline.Normal :=
      .map ((ih none h).mono fun _ _ hp => .option ho.1 ho.2 hp)
    cases explicit with
    | some id => exact hrest id
    | none =>
      refine .after fun known => ?_
      exact Triple.stopIf (fun _ => .fatalAt) (Rule.Answers.after fun _ => hrest _)

/-- A choice is normal if the nested passages are. -/
theorem answers_choice (hinner : inner.script.Answers Outline.Normal) :
    (choice inner).Answers Outline.Normal := by
  have hoptions (explicit : Option String) : Rule.Answers (do
      lineEnd
      let _ ← spaces
      let _ ← indented
      let options ← atOwnIndent (block (option inner) (same <* lookAhead (char '>')) 1)
      nameOptions explicit options) Outline.Normal :=
    .after fun _ => .after fun _ => .after fun _ =>
      (answers_option hinner).block.atOwnIndent.bind fun _ h => answers_nameOptions explicit h
  refine .after fun _ => .after fun named => ?_
  cases named with
  | none => exact hoptions none
  | some named => exact .after fun _ => hoptions (some named.2)

/-- A script is normal if the nested ones are. -/
theorem answers_script (hinner : inner.script.Answers Outline.Normal) :
    (script registry inner).Answers Outline.Normal := by
  have hline : (line registry inner).Answers Outline.Normal :=
    .orElse (.map (answers_node.mono fun _ _ h => List.forall_mem_singleton.2 h)) <|
      (answers_choice hinner).orElse (answers_label hinner)
  exact .after fun _ => hline.block.atOwnIndent.bind fun _ h => .pure (.concat h)

/-- Passages nested to any depth hold normal forms only. -/
theorem answers_upTo (depth : Nat) :
    (Nested.upTo registry depth).script.Answers Outline.Normal := by
  induction depth with
  | zero => exact fun _ _ _ _ _ _ h => nomatch h
  | succ depth ih => exact answers_script ih

/-- A whole source is answered in normal form. -/
theorem answers_source : (source registry).Answers Outline.Normal := by
  intro c f o c' f' hf h
  simp only [source] at h
  split at h
  · cases h
    exact Outline.normal_nil
  · have hscript : (complete registry (script registry)).Answers Outline.Normal :=
      fun c => answers_script (answers_upTo c.remaining) (c := c)
    exact hscript.bind (fun _ h => .after fun _ => .after fun _ => .pure h) hf h

end Grammar

/-! ## Compiling -/

variable {options : Options} {registry : Grammar.Registry}

/-- Simplification does not change a compiled expression, nor anything that it is put together from,
    and nothing is left to carry out there. -/
theorem compile_normal {source : String} {graph : Graph}
    (h : compile options registry source = .ok graph) {n : Node} (hn : n ∈ graph.nodes)
    {e : (k : Category) × Expr k} (he : n.expr? = some e) :
    ∀ x ∈ e.2.subterms, x.2.simplify = x.2 ∧ x.2.Settled := by
  obtain ⟨script, -, hread, -, -, rfl⟩ := compile_eq_ok h
  -- Every rule answers with what is simplified, and the graph has the nodes of the outline.
  have hnormal : script.outline.Normal := by
    obtain ⟨c, hr⟩ := Script.read_eq_ok.1 hread
    exact Grammar.answers_source True.intro hr
  have he : e.2.Normal := hnormal n (script.outline.nodes_graph.mem_iff.1 hn) e he
  exact fun x hx => ⟨(he.subterm hx).simplify_eq, he x hx⟩

/-- A line that goes on on another one, with quotes to be joined and an empty one to be dropped. -/
def patchwork : String :=
  ": Hi \x7bname\x7d\n  and \x7b\"one\"\x7d\x7b\"\"\x7d more \x7bf(x)\x7d\n"

/-- The pieces are joined, and what is left in braces is in normal form. -/
theorem compile_normal_patchwork :
    ∃ graph n e, compile {} sampleBindings.signature? patchwork = .ok graph ∧ n ∈ graph.nodes ∧
      n.expr? = some e ∧ e.2.text = "Hi \x7bname\x7d and one more \x7bf(x)\x7d" ∧
      ∀ x ∈ e.2.subterms, x.2.simplify = x.2 ∧ x.2.Settled := by
  have htexts : (compile {} sampleBindings.signature? patchwork).toOption.map
      (·.nodes.map fun n => n.expr?.map (·.2.text)) =
        some [some "Hi \x7bname\x7d and one more \x7bf(x)\x7d"] := by
    decide +kernel
  obtain ⟨graph, hgraph, htexts⟩ := Option.map_eq_some_iff.1 htexts
  have hgraph := eq_ok_of_toOption hgraph
  obtain ⟨n, hn, htext⟩ := List.mem_map.1 (htexts ▸ List.mem_singleton_self _)
  obtain ⟨e, he, htext⟩ := Option.map_eq_some_iff.1 htext
  exact ⟨graph, n, e, hgraph, hn, he, htext, compile_normal hgraph hn he⟩

end Dialogue
