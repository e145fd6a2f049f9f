import Dialogue.Proofs.Compile.Failure
import Dialogue.Proofs.Compile.Normal
import Dialogue.Proofs.Expr.AsWritten
import Dialogue.Proofs.Grammar.Follow
import Dialogue.Proofs.Grammar.Trace

/-!
# Options that are offered

An option without an id gets one that is made from the text of its prompt. The text is that of the
prompt as it is written, so prompts have the same one only if they are the same as they are written,
as long as their characters stand for themselves.

Ids are claimed in order, each at the offset of its block, and an option claims its id behind all
that is read of the choice that it is in. So where an id that is made from a prompt is found to be
claimed already, it was made from another one: names start with no underscore, and nothing else is
claimed where an option starts (`traced_nameOptions`).
-/

namespace Dialogue

open Dialogue.Parser

variable {α β : Type} {W : Nat → Expr .text → Prop} {o b c c' : Cursor} {e f f' : Facts}

/-- Where a rule that takes something answers, it is ahead. -/
theorem Parser.Takes.index_lt {p : Rule α} {a : α} (h : Takes p) (hr : p c f = .ok a c' f') :
    c.index < c'.index := by
  have hwalk := h (fun _ => False) c c.remaining f (.refl c) (Nat.lt_succ_self _)
  rw [hr] at hwalk
  exact hwalk.1.index_lt_iff.2 hwalk.2.2

/-- Texts that are told apart by their characters: these stand for themselves in both, or both
    texts are written out altogether. -/
def Expr.ToldApart (d e : Expr .text) : Prop :=
  d.Plain false ∧ e.Plain false ∨ ∃ s t : String, d = .literal s ∧ e = .literal t

namespace Grammar

variable {registry : Registry} {inner : Nested}

/-! ## Ids that are written out -/

/-- An id in brackets behind blanks, with the offset where it starts. -/
def tagged : Rule (Nat × String) := do
  let _ ← blanks1
  let index ← position
  return (index, ← bracketed)

/-- A label reads its id, claims it, and reads its body. -/
theorem label_eq : label inner = (do
    let _ ← keyword "label"
    let x ← tagged
    Rule.declare x.1 x.2
    let body ← below inner
    return .label x.2 body .nil) := by
  simp only [label, tagged, bind_assoc, pure_bind]

/-- An id in brackets starts with no underscore. -/
theorem traces_bracketed :
    Rule.Traces W o bracketed fun id => id.toList.head? ≠ some '_' := by
  refine .after (takes_char _).keeps (silent_char _) fun _ => .after keeps_blanks silent_blanks ?_
  refine fun _ => traces_identifier.bind fun id hid => .after keeps_blanks silent_blanks fun _ => ?_
  exact .after (takes_char _).keeps (silent_char _) fun _ => .pure hid.2.2.2

/-- An id behind its blanks starts with no underscore. -/
theorem traces_tagged : Rule.Traces W o tagged fun x => x.2.toList.head? ≠ some '_' :=
  .after takes_blanks1.keeps silent_blanks1 fun _ => .after keeps_position silent_position fun _ =>
    traces_bracketed.bind fun _ hid => .pure hid

/-- The offset of an id is behind the start of its label, and before its end. -/
theorem tagged_eq_ok {x : Nat × String} (h : tagged c f = .ok x c' f') :
    c.index < x.1 ∧ x.1 < c'.index := by
  obtain ⟨_, c₁, f₁, hblanks, h⟩ := of_bind_eq_ok h
  obtain ⟨i, c₂, f₂, hposition, h⟩ := of_bind_eq_ok h
  cases hposition
  obtain ⟨id, c₃, f₃, hid, h⟩ := of_bind_eq_ok h
  cases h
  exact ⟨takes_blanks1.index_lt hblanks, takes_bracketed.index_lt hid⟩

/-- The id of a block is claimed, and the rule goes on. -/
theorem traced_declare {Q : α → Prop} {p : Rule α} {i : Nat} {id : String}
    (hp : (p c (f.declare i id)).Traced W b e Q) :
    ((Rule.declare i id >>= fun _ => p) c f).Traced W b e Q := by
  rw [bind_apply, Rule.declare]
  by_cases htaken : f.isDeclared id
  · rw [if_pos htaken]
    exact fun _ h => by cases h
  · rw [if_neg htaken]
    exact hp

/-- A claim at the offset of a tag is one at a later offset. -/
theorem traced_tagged {Q : α → Prop} {g : Nat × String → Rule α} (ho : o.Ahead c)
    (hgrows : Grows W b e c f)
    (hg : ∀ x c' f', c.index < c'.index → Grows W b e c' f' → (g x c' f').Traced W b e Q) :
    ((tagged >>= fun x => Rule.declare x.1 x.2 >>= fun _ => g x) c f).Traced W b e Q := by
  refine traces_tagged.step ho hgrows fun x c' f' hr h hname => traced_declare (hg x c' _ ?_ ?_)
  · exact Nat.lt_trans (tagged_eq_ok hr).1 (tagged_eq_ok hr).2
  · have hlt := Nat.lt_of_le_of_lt hgrows.ahead.index_le (tagged_eq_ok hr).1
    exact (hgrows.trans h).declare hlt (tagged_eq_ok hr).2 (.inl hname)

/-! ## Options -/

/-- Nested rules that trace. Their prompts are those of options. -/
structure Nested.Offers (W : Nat → Expr .text → Prop) (o : Cursor) (registry : Registry)
    (inner : Nested) : Prop extends inner.Traces W o registry where
  /-- Lines of one level. -/
  script : Rule.Traces W o inner.script fun _ => True
  /-- A prompt that is answered is that of an option where it starts. -/
  offer ⦃c : Cursor⦄ ⦃f : Facts⦄ ⦃q : Expr .text⦄ ⦃c' : Cursor⦄ ⦃f' : Facts⦄ (ho : o.Ahead c)
    (hr : prompt inner c f = .ok q c' f') : W c.index q

/-- The ids of a passage below can be traced. -/
theorem traces_below (h : inner.Offers W o registry) :
    Rule.Traces W o (below inner) fun _ => True :=
  .after keeps_lineEnd silent_lineEnd fun _ => .after keeps_spaces silent_spaces fun _ =>
    .after keeps_indented silent_indented fun _ => h.script

/-- The ids of a label and of its body can be traced. -/
theorem traces_label (h : inner.Offers W o registry) :
    Rule.Traces W o (label inner) fun _ => True := by
  rw [label_eq]
  refine .after (takes_keyword (by decide)).keeps (silent_keyword _) fun _ c f ho => ?_
  refine traced_tagged ho (.refl c f) fun x c' f' _ hgrows => ?_
  have hbody : Rule.Traces W o
      (do let body ← below inner; return .label x.2 body .nil : Rule Outline) fun _ => True :=
    (traces_below h).bind fun _ _ => .pure trivial
  exact (hbody f' (ho.trans hgrows.ahead)).back hgrows

/-- A prompt takes its mark at least. -/
theorem prompt_index_lt (h : inner.Traces W o registry) (ho : o.Ahead c) {q : Expr .text}
    (hr : prompt inner c f = .ok q c' f') : c.index < c'.index := by
  obtain ⟨es, c₁, f₁, hblock, hr⟩ := of_bind_eq_ok hr
  cases hr
  obtain ⟨e, c₂, f₂, c₃, f₃, es', hline, h₃, -, h₄, -⟩ :=
    (traces_promptLine h).of_block_eq_ok keeps_promptNext silent_promptNext ho hblock
  obtain ⟨_, c₁, f₁, hmark, htext⟩ := of_bind_eq_ok hline
  have h₁ : Grows W c f c₁ f₁ :=
    ((Rule.Traces.of_keeps takes_promptMark.keeps silent_promptMark).of_ok ho hmark).1
  have h₂ := ((traces_textLine h).of_ok (ho.trans h₁.ahead) htext).1
  exact Nat.lt_of_lt_of_le (takes_promptMark.index_lt hmark)
    ((h₂.trans h₃).trans h₄).ahead.index_le

/-- The ids below an option can be traced. -/
theorem traces_option (h : inner.Offers W o registry) :
    Rule.Traces W o (option inner) fun _ => True :=
  .after keeps_position silent_position fun _ => (traces_prompt h.toTraces).bind fun _ _ =>
    (traces_below h).bind fun _ _ => .pure trivial

/-- An option tells its offset and its prompt, and takes something. -/
theorem option_eq_ok (h : inner.Offers W o registry) (ho : o.Ahead c) {u : Unnamed}
    (hr : option inner c f = .ok u c' f') :
    u.index = c.index ∧ W c.index u.prompt ∧ c.index < c'.index := by
  obtain ⟨i, c₀, f₀, hposition, hr⟩ := of_bind_eq_ok hr
  cases hposition
  obtain ⟨q, c₁, f₁, hprompt, hr⟩ := of_bind_eq_ok hr
  obtain ⟨body, c₂, f₂, hbody, hr⟩ := of_bind_eq_ok hr
  cases hr
  have hlt := prompt_index_lt h.toTraces ho hprompt
  have hahead := ((traces_prompt h.toTraces).of_ok ho hprompt).1.ahead
  have hle := ((traces_below h).of_ok (ho.trans hahead) hbody).1.ahead.index_le
  exact ⟨rfl, h.offer ho hprompt, Nat.lt_of_lt_of_le hlt hle⟩

/-- The option starts in between, with its prompt, and nothing new was claimed there. -/
structure Waits (W : Nat → Expr .text → Prop) (i j : Nat) (e f : Facts) (u : Unnamed) :
    Prop where
  /-- It has its prompt. -/
  offered : W u.index u.prompt
  /-- It starts behind the first offset. -/
  lt : i < u.index
  /-- It starts before the second offset. -/
  gt : u.index < j
  /-- What was claimed there was claimed before. -/
  free : ∀ x ∈ f.declared, x ∈ e.declared ∨ x.index ≠ u.index

/-- The options of a choice wait for their ids, one behind the other. -/
theorem waits_of_block (h : inner.Offers W o registry) {continues : Rule β} {owed : Nat}
    {us : List Unnamed} (hkeeps : Keeps continues) (hsilent : Silent continues) (ho : o.Ahead c)
    (hlt : b.index < c.index) (hgrows : Grows W b e c f)
    (hr : block (option inner) continues owed c f = .ok us c' f') :
    (∀ u ∈ us, c.index ≤ u.index ∧ Waits W b.index c'.index e f' u) ∧
      us.Pairwise (·.index < ·.index) := by
  induction hn : c.remaining using Nat.strongRecOn generalizing c f owed us with
  | ind n ih =>
    subst hn
    have hwhole := (((traces_option h).block hkeeps hsilent owed).of_ok ho hr).1
    obtain ⟨u, c₁, f₁, c₂, f₂, us', hoption, h₂, hrest, h₃, rfl⟩ :=
      (traces_option h).of_block_eq_ok hkeeps hsilent ho hr
    have h₁ := ((traces_option h).of_ok ho hoption).1
    obtain ⟨hindex, hoffered, hless⟩ := option_eq_ok h ho hoption
    have hu : Waits W b.index c'.index e f' u := {
      offered := hindex ▸ hoffered
      lt := hindex ▸ hlt
      gt := hindex ▸ Nat.lt_of_lt_of_le hless (h₂.trans h₃).ahead.index_le
      -- All other claims were made before this option or behind its start.
      free := fun x hx => by
        obtain hx | ⟨hbehind, -⟩ := hwhole.claims x hx
        · obtain hx | ⟨-, hahead, -⟩ := hgrows.claims x hx
          · exact .inl hx
          · exact .inr (hindex ▸ Nat.ne_of_lt hahead)
        · exact .inr (hindex ▸ Nat.ne_of_gt hbehind) }
    have hlast : (∀ v ∈ [u], c.index ≤ v.index ∧ Waits W b.index c'.index e f' v) ∧
        [u].Pairwise (·.index < ·.index) :=
      ⟨List.forall_mem_singleton.2 ⟨Nat.le_of_eq hindex.symm, hu⟩, List.pairwise_singleton _ _⟩
    obtain ⟨-, rfl, -⟩ | ⟨-, ⟨-, rfl, -⟩ | ⟨_, c₃, f₃, hcont, hshort, hblock⟩⟩ := resume_eq_ok hrest
    · exact hlast
    · exact hlast
    · have hsame : f₃.declared = f₂.declared := hsilent (·.declared = f₂.declared) rfl hcont
      have hnext : Grows W c f (c₂.skipWhile Text.isBlank) f₃ :=
        (h₁.trans h₂).trans (.of_declared_eq (Cursor.ahead_skip _ c₂) hsame)
      have hle : u.index < (c₂.skipWhile Text.isBlank).index :=
        hindex ▸ Nat.lt_of_lt_of_le hless
          (h₂.ahead.trans (Cursor.ahead_skip _ c₂)).index_le
      obtain ⟨hus, hpair⟩ := ih _ hshort (ho.trans hnext.ahead)
        (Nat.lt_of_lt_of_le hlt hnext.ahead.index_le) (hgrows.trans hnext) hblock rfl
      refine ⟨List.forall_mem_cons.2 ⟨⟨Nat.le_of_eq hindex.symm, hu⟩, fun v hv => ?_⟩,
        List.pairwise_cons.2 ?_⟩
      · exact ⟨Nat.le_trans hnext.ahead.index_le (hus v hv).1, (hus v hv).2⟩
      · exact ⟨fun v hv => Nat.lt_of_lt_of_le hle (hus v hv).1, hpair⟩

/-- Options without an id are named by their prompts, the first one first. -/
theorem nameOptions_none (u : Unnamed) (rest : List Unnamed) (c : Cursor) (f : Facts) :
    nameOptions none (u :: rest) c f = if f.isDeclared (promptId u.prompt.text) then
        .fatal u.index (.offeredTwice u.prompt.text) f
      else
        (do
          Rule.declare u.index (promptId u.prompt.text)
          .option (promptId u.prompt.text) u.prompt u.body <$> nameOptions none rest :
            Rule _) c f := by
  rw [nameOptions, bind_apply]
  change (ite (f.isDeclared _) _ _ : Rule Outline) c f = _
  split <;> rfl

/-- The id of a prompt starts with an underscore. -/
theorem head_promptId (prompt : String) : (promptId prompt).toList.head? = some '_' := by
  rw [promptId, String.toList_ofList]
  rfl

/-- Where the id that is made from a prompt is claimed already, it was made from another prompt:
    it is no name, and nothing was claimed where the option starts. -/
theorem Waits.offeredTwice {u : Unnamed} (h : Waits W b.index c.index e f u)
    (hgrows : Grows W b e c f) (hbehind : e.Behind W b)
    (htaken : f.isDeclared (promptId u.prompt.text)) :
    OfferedTwice W u.index u.prompt.text f := by
  obtain ⟨⟨j, id⟩, hx, heq⟩ := List.any_eq_true.1 htaken
  obtain rfl : id = promptId u.prompt.text := of_decide_eq_true heq
  have hj : j ≠ u.index := by
    obtain hold | hne := h.free _ hx
    · exact Nat.ne_of_lt (Nat.lt_trans (hbehind _ hold).1 h.lt)
    · exact hne
  obtain hname | ⟨q, hq, hitem⟩ := (hbehind.grow hgrows _ hx).2
  · exact absurd (head_promptId _) hname
  · exact ⟨u.prompt, h.offered, rfl, j, q, hj, hq, hitem ▸ hx, hitem.symm⟩

/-- Ids made from prompts meet no others but ids made from prompts. -/
theorem traced_nameOptions {explicit : Option String} {us : List Unnamed}
    (hgrows : Grows W b e c f) (hus : ∀ u ∈ us, Waits W b.index c.index e f u)
    (hpair : us.Pairwise (·.index < ·.index)) :
    (nameOptions explicit us c f).Traced W b e fun _ => True := by
  induction us generalizing explicit f with
  | nil => exact ⟨hgrows, trivial⟩
  | cons u rest ih =>
    obtain ⟨hu, hrest⟩ := List.forall_mem_cons.1 hus
    obtain ⟨hbefore, hpair⟩ := List.pairwise_cons.1 hpair
    cases explicit with
    | some id => exact (ih hgrows hrest hpair).map
    | none =>
      rw [nameOptions_none]
      split
      · rintro t ⟨⟩ hbehind
        exact hu.offeredTwice hgrows hbehind ‹_›
      · refine traced_declare (.map (ih ?_ (fun v hv => ?_) hpair))
        · exact hgrows.declare hu.lt hu.gt (.inr ⟨u.prompt, hu.offered, rfl⟩)
        · -- The options behind this one start elsewhere.
          refine { hrest v hv with free := fun x hx => ?_ }
          obtain hx | hx := List.mem_append.1 hx
          · exact (hrest v hv).free x hx
          · obtain rfl := List.mem_singleton.1 hx
            exact .inr (Nat.ne_of_lt (hbefore v hv))

/-- The ids of a choice and of what is below it can be traced. -/
theorem traces_choice (h : inner.Offers W o registry) :
    Rule.Traces W o (choice inner) fun _ => True := by
  -- The options are read in the same way with an explicit id and without.
  have hoffers (explicit : Option String) {b e c f} (ho : o.Ahead c) (hlt : b.index < c.index)
      (hgrows : Grows W b e c f) : (offers inner explicit c f).Traced W b e fun _ => True := by
    have hend : Rule.Traces W o lineEnd fun _ => True := .of_keeps keeps_lineEnd silent_lineEnd
    have hspaces : Rule.Traces W o spaces fun _ => True := .of_keeps keeps_spaces silent_spaces
    have hindented : Rule.Traces W o indented fun _ => True :=
      .of_keeps keeps_indented silent_indented
    have hkeeps : Keeps (same <* lookAhead (char '>') : Rule Nat) :=
      keeps_same.seqLeft (takes_char _).keeps.lookAhead
    have hsilent : Silent (same <* lookAhead (char '>') : Rule Nat) :=
      silent_same.seqLeft silent_lookAhead
    refine hend.step ho hgrows fun _ c₁ f₁ _ h₁ _ => ?_
    refine hspaces.step (ho.trans h₁.ahead) (hgrows.trans h₁) fun _ c₂ f₂ _ h₂ _ => ?_
    have h₂ := h₁.trans h₂
    refine hindented.step (ho.trans h₂.ahead) (hgrows.trans h₂) fun _ c₃ f₃ _ h₃ _ => ?_
    have h₃ := h₂.trans h₃
    have hblock := ((traces_option h).block hkeeps hsilent 1).atOwnIndent
    refine hblock.step (ho.trans h₃.ahead) (hgrows.trans h₃) fun us c₄ f₄ hr h₄ _ => ?_
    obtain ⟨c₅, hblock, rfl⟩ := of_atOwnIndent_eq_ok hr
    have hown : Grows W b e (c₃.withReference c₃.here) f₃ :=
      (hgrows.trans h₃).trans (.of_declared_eq (Cursor.ahead_withReference _ c₃) rfl)
    obtain ⟨hus, hpair⟩ := waits_of_block h hkeeps hsilent
      ((ho.trans h₃.ahead).withReference c₃.here) (Nat.lt_of_lt_of_le hlt h₃.ahead.index_le) hown
      hblock
    exact traced_nameOptions ((hgrows.trans h₃).trans h₄) (fun u hu => (hus u hu).2) hpair
  intro c f ho
  rw [choice_eq]
  have hkeyword : Takes (keyword "choice" : Rule String) := takes_keyword (by decide)
  refine (Rule.Traces.of_keeps hkeyword.keeps (silent_keyword _)).step ho (.refl c f) ?_
  intro _ c₁ f₁ hr h₁ _
  have hlt := hkeyword.index_lt hr
  refine Rule.Traces.optionalStep ?_ (hoffers none (ho.trans h₁.ahead) hlt h₁)
  refine traced_tagged (ho.trans h₁.ahead) h₁ fun x c₂ f₂ hlt₂ h₂ => ?_
  exact hoffers (some x.2) (ho.trans h₂.ahead) (Nat.lt_trans hlt hlt₂) h₂

/-- The ids of a line and of what is below it can be traced. -/
theorem traces_line (h : inner.Offers W o registry) :
    Rule.Traces W o (line registry inner) fun _ => True :=
  (traces_node h.toTraces).map.orElse <| (traces_choice h).orElse (traces_label h)

/-- The ids of a script can be traced. -/
theorem traces_script (h : inner.Offers W o registry) :
    Rule.Traces W o (script registry inner) fun _ => True :=
  .after keeps_spaces silent_spaces fun _ =>
    ((traces_line h).block keeps_same silent_same 0).atOwnIndent.bind fun _ _ => .pure trivial

/-! ## Whole sources -/

/-- In a source that begins at `o` an option may start at the offset with this prompt: the rule for
    prompts answers it there. -/
def Offers (registry : Registry) (o : Cursor) (i : Nat) (q : Expr .text) : Prop :=
  ∃ depth c f c' f', o.Ahead c ∧ c.index = i ∧ prompt (.upTo registry depth) c f = .ok q c' f'

/-- At every depth the ids can be traced, and prompts are those of their options. -/
theorem offers_upTo (depth : Nat) :
    (Nested.upTo registry depth).Offers (Offers registry o) o registry := by
  have hoffer (depth : Nat) ⦃c f q c' f'⦄ (ho : o.Ahead c)
      (hr : prompt (.upTo registry depth) c f = .ok q c' f') : Offers registry o c.index q :=
    ⟨depth, c, f, c', f', ho, rfl, hr⟩
  induction depth with
  | zero =>
    have hstop {α : Type} (Q : α → Prop) :
        Rule.Traces (Offers registry o) o (fun c f => .fatal c.index .endless f : Rule α) Q :=
      fun _ _ _ => nofun
    exact ⟨⟨hstop _, hstop _, hstop _, hstop _, hstop _, hstop _⟩, hstop _, hoffer 0⟩
  | succ depth ih =>
    exact {
      sum := traces_sum ih.toTraces
      disjunction := traces_disjunction ih.toTraces
      unary := traces_unary ih.toTraces
      operand := traces_operand ih.toTraces
      quoted := traces_quoted ih.toTraces
      textLine := traces_textLine ih.toTraces
      script := traces_script ih
      offer := hoffer (depth + 1) }

/-- The ids of a whole source can be traced. -/
theorem traces_source : Rule.Traces (Offers registry o) o (source registry) fun _ => True := by
  intro c f ho
  simp only [source]
  split
  · exact ⟨.of_declared_eq (Cursor.ahead_skip _ c) rfl, trivial⟩
  · have hscript : Rule.Traces (Offers registry o) o (complete registry (script registry))
        fun _ => True := fun c f ho => traces_script (offers_upTo c.remaining) f ho
    refine hscript.bind (fun _ _ => .after keeps_spaces silent_spaces fun _ => ?_) f ho
    exact .after (takes_satisfy _ _).keeps.notFollowedBy silent_notFollowedBy fun _ => .pure trivial

/-! ## Prompts and their texts -/

namespace Offers

variable {o' : Cursor} {i j : Nat} {d e : Expr .text}

/-- The names in a prompt that is offered are names. -/
theorem named (h : Offers registry o i d) : d.Named registry := by
  obtain ⟨depth, c, f, c', f', ho, -, hr⟩ := h
  exact ((traces_prompt (offers_upTo depth).toTraces).of_ok ho hr).2

/-- A prompt that is offered is normal. -/
theorem normal (h : Offers registry o i d) : d.Normal := by
  obtain ⟨depth, c, f, c', f', -, -, hr⟩ := h
  exact answers_prompt True.intro hr

/-- Two prompts have one text if they are the same as they are written. -/
theorem text_eq_iff (hd : Offers registry o i d) (he : Offers registry o' j e)
    (htold : Expr.ToldApart d e) : d.text = e.text ↔ d.asWritten = e.asWritten := by
  obtain ⟨hdplain, heplain⟩ | ⟨s, t, rfl, rfl⟩ := htold
  · exact Expr.text_eq_iff hd.named he.named hd.normal he.normal hdplain heplain
  · exact ⟨congrArg (Expr.literal (k := .text)), Expr.literal.inj⟩

end Offers

/-- An option that is offered twice has the id of another one. -/
theorem source_offeredTwice {i : Nat} {t : String}
    (h : source registry o .empty = .fatal i (.offeredTwice t) f) :
    OfferedTwice (Offers registry o) i t f := by
  have htraces : (source registry o .empty).Traced (Offers registry o) o .empty fun _ => True :=
    traces_source .empty (.refl o)
  rw [h] at htraces
  exact htraces t rfl nofun

end Grammar

/-! ## Options without ids -/

section

open Grammar

/-- The text of a prompt that is made into an id tells the prompt as it is written from another
    one, if their characters stand for themselves or both are written out altogether. An option is
    offered twice only if it has the same id as another one that claimed it before: the same prompt
    as it is written, unless two texts are made into one id. -/
theorem promptId_identifies (options : Options) (registry : Registry) :
    (∀ {o o' i j d e}, Offers registry o i d → Offers registry o' j e → d.ToldApart e →
      (d.text = e.text ↔ d.asWritten = e.asWritten)) ∧
    ∀ {source : String} {place t},
      compile options registry source = .error (.meaningless place (.offeredTwice t)) →
        let o := Cursor.ofChars source.toList options.tabSize
        ∃ i d j e f, place = .of source.toList i ∧
          Grammar.source registry o .empty = .fatal i (.offeredTwice t) f ∧
          Offers registry o i d ∧ d.text = t ∧
          j ≠ i ∧ Offers registry o j e ∧ ⟨j, promptId e.text⟩ ∈ f.declared ∧
          promptId e.text = promptId d.text ∧
          (e.text = d.text → e.ToldApart d → e.asWritten = d.asWritten) := by
  refine ⟨fun hd he => hd.text_eq_iff he, fun {source place t} h => ?_⟩
  obtain ⟨failure, hfails, heq⟩ | ⟨c, heq⟩ | ⟨j, heq⟩ := compile_error_cases h
  · cases failure with
    | miss i m => cases heq
    | fatal i x =>
      cases heq
      cases hr : Grammar.source registry (.ofChars source.toList options.tabSize) .empty with
      | ok _ _ _ => rw [hr] at hfails; cases hfails
      | miss _ _ _ => rw [hr] at hfails; cases hfails
      -- Another option has claimed the id before, as no label can have an id like that.
      | fatal i' x' f =>
        rw [hr] at hfails
        cases hfails
        obtain ⟨d, hd, rfl, j, e, hj, he, hclaimed, hid⟩ := source_offeredTwice hr
        refine ⟨i, d, j, e, f, rfl, hr, hd, rfl, hj, he, hclaimed, hid, ?_⟩
        exact fun htext htold => (he.text_eq_iff hd htold).1 htext
  · cases heq
  · cases heq

/-- A choice with options that have these prompts. -/
def asking (prompts : List String) : String :=
  prompts.foldl (fun source p => source ++ "  > " ++ p ++ "\n    : a\n") "choice\n"

/-- What the prompt of the first option is like. -/
theorem exists_prompt (g : Expr .text → α) (a : α) (s : String)
    (hr : (prompt (.upTo (fun _ => none) 8) ((Cursor.ofChars (asking [s]).toList 4).skip 9)
      .empty).outcome.toOption.map (g ·.1) = some a)
    (hi : ((Cursor.ofChars (asking [s]).toList 4).skip 9).index = 9) :
    ∃ d, Offers (fun _ => none) (.ofChars (asking [s]).toList 4) 9 d ∧ g d = a := by
  obtain ⟨d, c', f', h, hd⟩ := Reply.of_outcome hr
  exact ⟨d, ⟨8, _, _, c', f', Cursor.ahead_skip 9 _, hi, h⟩, hd⟩

/-- A text alone as a prompt, and in quotes, and a choice that offers it twice. -/
theorem promptId_identifies_go :
    (∃ d e, Offers (fun _ => none) (.ofChars (asking ["Go"]).toList 4) 9 d ∧
      Offers (fun _ => none) (.ofChars (asking ["\x7b\"Go\"\x7d"]).toList 4) 9 e ∧
      d.asWritten = e.asWritten) ∧
    ∃ place i d j e,
      compile {} (fun _ => none) (asking ["Go", "Go"]) =
          .error (.meaningless place (.offeredTwice "Go")) ∧
        Offers (fun _ => none) (.ofChars (asking ["Go", "Go"]).toList 4) i d ∧ d.text = "Go" ∧
        j ≠ i ∧ Offers (fun _ => none) (.ofChars (asking ["Go", "Go"]).toList 4) j e ∧
        promptId e.text = promptId "Go" := by
  have hplain : (Expr.literal (k := .text) "Go").Plain false := by
    rw [Expr.Plain]
    intro x hx
    obtain rfl | rfl : x = 'G' ∨ x = 'o' := by simpa using hx
    all_goals exact ⟨by decide, fun h => absurd h Bool.false_ne_true⟩
  obtain ⟨d, hd, hdgo⟩ :=
    exists_prompt Expr.literal? (some "Go") "Go" (by decide +kernel) (by decide +kernel)
  obtain ⟨e, he, hego⟩ := exists_prompt Expr.literal? (some "Go") "\x7b\"Go\"\x7d"
    (by decide +kernel) (by decide +kernel)
  cases Expr.eq_literal_of_literal? hdgo
  cases Expr.eq_literal_of_literal? hego
  have hfails : (match compile {} (fun _ => none) (asking ["Go", "Go"]) with
      | .ok _ => none
      | .error e => some e) = some (.meaningless ⟨24, 24, 4, 3⟩ (.offeredTwice "Go")) := by
    decide +kernel
  cases hc : compile {} (fun _ => none) (asking ["Go", "Go"]) with
  | ok graph => rw [hc] at hfails; cases hfails
  | error err =>
    rw [hc] at hfails
    obtain rfl := Option.some.inj hfails
    obtain ⟨hsame, htwice⟩ := promptId_identifies {} fun _ => none
    obtain ⟨i, p, j, q, f, -, -, hp, hpt, hj, hq, -, hid, -⟩ := htwice hc
    exact ⟨⟨_, _, hd, he, (hsame hd he (.inl ⟨hplain, hplain⟩)).1 rfl⟩,
      _, i, p, j, q, rfl, hp, hpt, hj, hq, hpt ▸ hid⟩

/-- Two prompts are different ones with one text, each in a choice that is accepted alone. No choice
    may offer both. -/
structure Confused (s t : String) : Prop where
  /-- The choices alone are accepted. -/
  accepted : (compile {} (fun _ => none) (asking [s])).toBool ∧
    (compile {} (fun _ => none) (asking [t])).toBool
  /-- The prompts are not the same, but have one text. -/
  sharing : ∃ d e, Offers (fun _ => none) (.ofChars (asking [s]).toList 4) 9 d ∧
    Offers (fun _ => none) (.ofChars (asking [t]).toList 4) 9 e ∧ d ≠ e ∧ d.text = e.text
  /-- Together they are rejected. -/
  rejected : ∃ place text, compile {} (fun _ => none) (asking [s, t]) =
    .error (.meaningless place (.offeredTwice text))

/-- What is looked at to tell prompts apart: the text, whether it is written out, and how variables
    are used. -/
def promptView (d : Expr .text) : String × Option String × List Use :=
  (d.text, d.literal?, d.mentions.filterMap (·.use?))

/-- Two prompts are confused if their views differ and their texts do not. -/
theorem Confused.of_views {s t : String} {x y : String × Option String × List Use}
    (haccepted : (compile {} (fun _ => none) (asking [s])).toBool ∧
      (compile {} (fun _ => none) (asking [t])).toBool)
    (hs : ∃ d, Offers (fun _ => none) (.ofChars (asking [s]).toList 4) 9 d ∧ promptView d = x)
    (ht : ∃ e, Offers (fun _ => none) (.ofChars (asking [t]).toList 4) 9 e ∧ promptView e = y)
    (hxy : x.1 = y.1 ∧ x ≠ y)
    (hrejected : (match compile {} (fun _ => none) (asking [s, t]) with
      | .error (.meaningless _ (.offeredTwice text)) => some text
      | _ => none) = some x.1) : Confused s t := by
  obtain ⟨d, hd, rfl⟩ := hs
  obtain ⟨e, he, rfl⟩ := ht
  refine ⟨haccepted, ⟨d, e, hd, he, fun heq => hxy.2 (heq ▸ rfl), hxy.1⟩, ?_⟩
  split at hrejected
  · exact ⟨_, _, ‹_›⟩
  · cases hrejected

/-- The text of a prompt does not show what category a variable must have if it stands alone or is
    compared with another one, that it is the negation of a variable that another one is compared
    with, that a word is infinity and no variable, or that braces are written out. -/
theorem promptText_not_injective :
    Confused "\x7bx\x7d" "\x7b(x)\x7d" ∧ Confused "\x7ba is b\x7d" "\x7b(a) is b\x7d" ∧
      Confused "\x7ba is not b\x7d" "\x7ba is (not b)\x7d" ∧
      Confused "\x7bx + inf\x7d" "\x7bx + 1 / 0\x7d" ∧
      Confused "\x7bx\x7d" "\x7b\"\\\x7bx\x7d\"\x7d" := by
  have hshown := exists_prompt promptView ("\x7bx\x7d", none, []) "\x7bx\x7d"
    (by decide +kernel) (by decide +kernel)
  have hnumber := exists_prompt promptView ("\x7bx\x7d", none, [.typed "x" .number])
    "\x7b(x)\x7d" (by decide +kernel) (by decide +kernel)
  have hbare := exists_prompt promptView ("\x7b(a is b)\x7d", none, [.linked "a" "b"])
    "\x7ba is b\x7d" (by decide +kernel) (by decide +kernel)
  have htrue := exists_prompt promptView
    ("\x7b(a is b)\x7d", none, [.typed "a" .boolean, .typed "b" .boolean])
    "\x7b(a) is b\x7d" (by decide +kernel) (by decide +kernel)
  have hlinked := exists_prompt promptView ("\x7b(a is not b)\x7d", none, [.linked "a" "b"])
    "\x7ba is not b\x7d" (by decide +kernel) (by decide +kernel)
  have hnegated := exists_prompt promptView
    ("\x7b(a is not b)\x7d", none, [.typed "a" .boolean, .typed "b" .boolean])
    "\x7ba is (not b)\x7d" (by decide +kernel) (by decide +kernel)
  have hnamed := exists_prompt promptView
    ("\x7b(x + inf)\x7d", none, [.typed "x" .number, .typed "inf" .number])
    "\x7bx + inf\x7d" (by decide +kernel) (by decide +kernel)
  have hinfinite := exists_prompt promptView ("\x7b(x + inf)\x7d", none, [.typed "x" .number])
    "\x7bx + 1 / 0\x7d" (by decide +kernel) (by decide +kernel)
  have hwritten := exists_prompt promptView ("\x7bx\x7d", some "\x7bx\x7d", [])
    "\x7b\"\\\x7bx\x7d\"\x7d" (by decide +kernel) (by decide +kernel)
  exact ⟨.of_views (by decide +kernel) hshown hnumber (by decide) (by decide +kernel),
    .of_views (by decide +kernel) hbare htrue (by decide) (by decide +kernel),
    .of_views (by decide +kernel) hlinked hnegated (by decide) (by decide +kernel),
    .of_views (by decide +kernel) hnamed hinfinite (by decide) (by decide +kernel),
    .of_views (by decide +kernel) hshown hwritten (by decide) (by decide +kernel)⟩

end

end Dialogue
