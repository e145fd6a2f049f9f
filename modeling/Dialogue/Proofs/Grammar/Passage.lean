import Dialogue.Compile
import Dialogue.Proofs.Grammar.Statement

/-!
# The facts of passages

Every block of a script claims its id once. The id of a label, and that of a choice, is a
name, so it is not the id of the main block (`triple_identifier`); neither is one that is
made from a prompt, which is longer (`promptId_ne_main`).

An option without an id claims one only when all options of its choice are read. Until
then the facts are those of the options without their ids, and of the id of the choice,
which the first option gets (`triple_nameOptions`).

With this the property of the rules nested in each other is shown by induction on their
depth (`records_upTo`), and the facts of a source are those of its outline
(`Script.facts_match`).
-/

namespace Dialogue

open Dialogue.Parser

namespace Grammar

variable {registry : Registry} {inner : Nested}

/-! ## Ids -/

/-- An id that is made from a prompt is not that of the main block. -/
theorem promptId_ne_main (prompt : String) : promptId prompt ≠ Graph.main := by
  intro h
  have h := congrArg (·.toList.length) h
  rw [promptId, String.toList_ofList, List.length_cons, Digest.Base64.length_encode,
    Digest.Sha1.length_digest] at h
  exact absurd h (by decide)

/-- A name is not the id of the main block. -/
theorem triple_identifier {P : Facts → Prop} :
    Triple P identifier fun id f => P f ∧ id ≠ Graph.main := by
  refine .map ?_
  refine (silent_takeWhile1 _ _).filter.triple.filter.mono fun run f ⟨hP, hfirst⟩ => ⟨hP, ?_⟩
  rintro h
  rw [← String.toList_inj, String.toList_ofList] at h
  subst h
  exact absurd hfirst (by decide)

/-- An id in brackets is not that of the main block. -/
theorem triple_bracketed {P : Facts → Prop} :
    Triple P bracketed fun id f => P f ∧ id ≠ Graph.main := by
  refine (silent_char _).triple.bind fun _ => silent_blanks.triple.bind fun _ => ?_
  refine triple_identifier.bind fun id => ?_
  refine silent_blanks.triple.bind fun _ => (silent_char _).triple.bind fun _ => ?_
  exact .pure fun _ h => h

/-- An id is claimed only if it is new. -/
theorem triple_declare {index : Nat} {id : String} (hid : id ≠ Graph.main) (l : Log) :
    Triple (Facts.Match registry · l) (Rule.declare index id)
      fun _ f => f.Match registry (l ++ .ofId id) := by
  intro c f _ c' f' hf h
  rw [Rule.declare] at h
  split at h
  · cases h
  · rename_i hnew
    cases h
    exact hf.declare (Bool.eq_false_iff.2 hnew) hid

/-! ## Labels and choices -/

/-- A passage below records its lines. -/
theorem records_below (hinner : inner.Records registry) :
    Rule.Records registry Outline.log (below inner) :=
  .after silent_lineEnd (.after silent_spaces (.after silent_indented hinner.script))

/-- A label records its id and its body. -/
theorem records_label (hinner : inner.Records registry) :
    Rule.Records registry Outline.log (label inner) := by
  intro l
  refine (silent_keyword _).triple.bind fun _ => silent_blanks1.triple.bind fun _ => ?_
  refine silent_position.triple.bind fun index => ?_
  refine triple_bracketed.bind fun id => ?_
  refine Triple.bind (Q := fun _ f => f.Match registry (l ++ .ofId id)) ?_ fun _ => ?_
  · rintro c f _ c' f' ⟨hf, hid⟩ h
    exact triple_declare hid l hf h
  · refine (records_below hinner _).bind fun body => .pure fun _ h => ?_
    rwa [Log.append_assoc, ← Log.append_empty (.ofId id ++ body.log)] at h

/-- The log of an option that has no id yet. -/
def Unnamed.log (o : Unnamed) : Log := o.prompt.log ++ o.body.log

/-- An option records its prompt and its body, and no id yet. -/
theorem records_option (hinner : inner.Records registry) :
    Rule.Records registry Unnamed.log (option inner) := by
  intro l
  refine silent_position.triple.bind fun _ => ?_
  refine (records_prompt hinner l).bind fun prompt => ?_
  refine (records_below hinner _).bind fun body => .pure fun _ h => ?_
  rwa [Log.append_assoc] at h

/-- The log of an id that is claimed for the first option, if there is one. -/
def pending (explicit : Option String) : Log := explicit.elim .empty .ofId

/-- The id of an option may be claimed after those of the options that are left. -/
theorem match_pending {f : Facts} {l m n : Log} {id : String}
    (h : f.Match registry (l ++ (m ++ n) ++ .ofId id)) :
    f.Match registry (l ++ .ofId id ++ m ++ n) := by
  refine h.perm ?_ ?_ ?_
  · simp only [Log.ids_append, List.append_assoc]
    refine .append_left _ ?_
    rw [← List.append_assoc]
    exact List.perm_append_comm
  · simp [Log.ofId]
  · simp [Log.ofId]

/-- Naming the options of a choice records their ids. -/
theorem triple_nameOptions (explicit : Option String) (os : List Unnamed)
    (hos : explicit ≠ none → os ≠ []) (l : Log) :
    Triple (Facts.Match registry · (l ++ pending explicit ++ .concat (os.map Unnamed.log)))
      (nameOptions explicit os) fun o f => f.Match registry (l ++ o.log) := by
  induction os generalizing explicit l with
  | nil =>
    cases explicit with
    | none =>
      refine .pure fun _ h => ?_
      rw [List.map_nil, Log.concat_nil, Log.append_empty] at h
      exact h
    | some id => exact absurd rfl (hos nofun)
  | cons o rest ih =>
    -- With its id the option comes before the options that are left.
    have hrest (id : String) : Triple
        (Facts.Match registry · (l ++ .ofId id ++ o.log ++ .concat (rest.map Unnamed.log)))
        (Outline.option id o.prompt o.body <$> nameOptions none rest)
        fun p f => f.Match registry (l ++ p.log) := by
      have hnone := ih none nofun (l ++ .ofId id ++ o.log)
      refine .map ((hnone.mono fun p f h => ?_).pre fun f h => ?_)
      · rwa [Outline.log, Log.append_assoc (.ofId id), ← Unnamed.log, ← Log.append_assoc,
          ← Log.append_assoc]
      · rwa [pending, Option.elim, Log.append_empty]
    cases explicit with
    | some id =>
      refine (hrest id).pre fun f h => ?_
      rwa [List.map_cons, Log.concat_cons, ← Log.append_assoc] at h
    | none =>
      rw [nameOptions]
      dsimp only
      refine Triple.journal.bind fun known => .stopIf (fun _ => .fatalAt) ?_
      refine ((triple_declare (promptId_ne_main _) _).pre fun _ h => h.1).bind fun _ => ?_
      refine (hrest _).pre fun f h => match_pending ?_
      rwa [pending, Option.elim, Log.append_empty, List.map_cons, Log.concat_cons] at h

/-- A choice records its options. -/
theorem records_choice (hinner : inner.Records registry) :
    Rule.Records registry Outline.log (choice inner) := by
  intro l
  have hoptions (explicit : Option String) : Triple
      (Facts.Match registry · (l ++ pending explicit))
      (do
        lineEnd
        let _ ← spaces
        let _ ← indented
        let options ← atOwnIndent (block (option inner) (same <* lookAhead (char '>')) 1)
        nameOptions explicit options)
      fun o f => f.Match registry (l ++ o.log) := by
    refine silent_lineEnd.triple.bind fun _ => silent_spaces.triple.bind fun _ => ?_
    refine silent_indented.triple.bind fun _ => ?_
    refine Triple.bind (.atOwnIndent (triple_block (records_option hinner)
      (silent_same.seqLeft silent_lookAhead) _)) fun os => ?_
    rintro c f o c' f' ⟨hos, hf⟩ h
    exact triple_nameOptions explicit os (fun _ => hos) l hf h
  refine (silent_keyword _).triple.bind fun _ => ?_
  refine .optionalBind (Q := fun named f => f.Match registry l ∧ named.2 ≠ Graph.main) ?_
    (fun named => ?_) ?_
  · refine silent_blanks1.triple.bind fun _ => silent_position.triple.bind fun _ => ?_
    exact triple_bracketed.bind fun _ => .pure fun _ h => h
  · refine Triple.bind (Q := fun _ f => f.Match registry (l ++ .ofId named.2)) ?_ fun _ => ?_
    · rintro c f _ c' f' ⟨hf, hid⟩ h
      exact triple_declare hid l hf h
    · exact hoptions (some named.2)
  · exact (hoptions none).pre fun _ h => by rwa [pending, Option.elim, Log.append_empty]

/-! ## Scripts -/

/-- A line records its statement. -/
theorem records_line (hinner : inner.Records registry) :
    Rule.Records registry Outline.log (line registry inner) :=
  ((records_node hinner).map fun n => Log.append_empty n.log).orElse <|
    (records_choice hinner).orElse (records_label hinner)

/-- A script records its lines. -/
theorem records_script (hinner : inner.Records registry) :
    Rule.Records registry Outline.log (script registry inner) := by
  intro l
  refine silent_spaces.triple.bind fun _ => ?_
  refine (Rule.Records.atOwnIndent (records_block (records_line hinner) silent_same) l).bind
    fun os => .pure fun f h => ?_
  rwa [Outline.log_concat]

/-- Rules nested to any depth keep the facts of what they answer. -/
theorem records_upTo (depth : Nat) : (Nested.upTo registry depth).Records registry := by
  induction depth with
  | zero =>
    -- Where no more rules may be nested nothing is answered.
    have hstop {α : Type} (log : α → Log) :
        Rule.Records registry log fun c f => .fatal c.index .endless f :=
      fun _ _ _ _ _ _ _ h => nomatch h
    exact ⟨hstop _, hstop _, hstop _, hstop _, hstop _, hstop _, hstop _⟩
  | succ depth ih =>
    exact {
      sum := records_sum ih
      disjunction := records_disjunction ih
      unary := records_unary ih
      operand := records_operand ih
      quoted := records_quoted ih
      textLine := records_textLine ih
      script := records_script ih }

/-- A whole source records its script. -/
theorem records_source : Rule.Records registry Outline.log (source registry) := by
  intro l c f o c' f' hf h
  simp only [source] at h
  split at h
  · cases h
    rwa [Outline.log, Log.append_empty]
  · have hscript : Rule.Records registry Outline.log (complete registry (script registry)) :=
      fun l c => records_script (records_upTo c.remaining) l (c := c)
    -- What is read after the script is only looked at.
    refine Triple.bind (S := fun o f => f.Match registry (l ++ o.log)) (hscript l)
      (fun outline => ?_) hf h
    refine silent_spaces.triple.bind fun _ => silent_notFollowedBy.triple.bind fun _ => ?_
    exact .pure fun _ h => h

end Grammar

variable {options : Options} {registry : Grammar.Registry}

/-- A script is the answer of the rule of a whole source, with what it noted. -/
theorem Script.read_eq_ok {source : List Char} {script : Script} :
    Script.read options registry source = .ok script ↔
      ∃ c, Grammar.source registry (.ofChars source options.tabSize) .empty =
        .ok script.outline c script.facts := by
  rw [read]
  cases Grammar.source registry (.ofChars source options.tabSize) .empty with
  | ok outline c f =>
    constructor
    · rintro ⟨⟩
      exact ⟨c, rfl⟩
    · rintro ⟨_, ⟨⟩⟩
      rfl
  | miss | fatal =>
    constructor
    · rintro ⟨⟩
    · rintro ⟨_, ⟨⟩⟩

/-- The facts that are found in a source are those of its outline. -/
theorem Script.facts_match {source : List Char} {script : Script}
    (h : Script.read options registry source = .ok script) :
    script.facts.Match registry script.outline.log := by
  obtain ⟨c, hr⟩ := Script.read_eq_ok.1 h
  exact Log.empty_append script.outline.log ▸ Grammar.records_source .empty Facts.Match.empty hr

end Dialogue
