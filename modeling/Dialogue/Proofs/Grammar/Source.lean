import Dialogue.Proofs.Grammar.Follow

/-!
# Whole sources

A source is the lines that start behind its first white space, with nothing behind them. So two
sources say the same if their lines are read alike from there (`source_of_levelled`).
-/

namespace Dialogue

open Dialogue.Parser

namespace Cursor

/-- The place of the first line ahead, with its own indentation as the reference. -/
def first (c : Cursor) : Cursor :=
  (c.skipWhile Text.isSpace).withReference (c.skipWhile Text.isSpace).here

end Cursor

namespace Grammar

variable {registry : Registry} {c d c' : Cursor} {f f' g : Facts} {o : Outline}
  {lines : List Outline}

/-- The lines of a source that starts at a place. -/
def sourceLines (registry : Registry) (c : Cursor) : Rule (List Outline) :=
  block (line registry (.upTo registry c.remaining)) same 0

/-- What is behind the last line. -/
def sourceEnd (what : String) (lines : List Outline) : Rule Outline := do
  let _ ← spaces
  notFollowedBy anyChar what
  return Outline.concat lines

/-- A source with something in it is its lines. -/
theorem source_eq (registry : Registry) {c : Cursor} (hne : c.first.rest ≠ []) (f : Facts) :
    ∃ what, source registry c f = (sourceLines registry c c.first f).bind fun lines c₁ =>
      sourceEnd what lines (c₁.withReference c.reference) := by
  have hmore : ¬(c.skipWhile Text.isSpace).atEnd := by
    rw [Cursor.atEnd, List.isEmpty_iff]
    exact hne
  have hscript : complete registry (script registry) c f =
      (atOwnIndent (replying (sourceLines registry c c.first f)) (c.skipWhile Text.isSpace) f).bind
        fun lines c₁ f₁ => .ok (Outline.concat lines) c₁ f₁ := rfl
  let first := c.skipWhile Text.isSpace
  have hsource : source registry c f = (do
      let outline ← complete registry (script registry)
      let _ ← spaces
      notFollowedBy anyChar s!"line indented to column {first.column}"
      return outline : Rule Outline) c f := by
    simp only [source]
    exact if_neg hmore
  refine ⟨s!"line indented to column {first.column}", ?_⟩
  rw [hsource, bind_apply, hscript]
  generalize sourceLines registry c c.first f = r
  cases r <;> rfl

/-- A source of white space is empty. -/
theorem source_of_end (h : c.first.rest = []) :
    source registry c f = .ok .nil (c.skipWhile Text.isSpace) f := by
  have hend : (c.skipWhile Text.isSpace).atEnd := List.isEmpty_iff.2 h
  simp only [source]
  rw [if_pos hend]

/-- Behind the last line is only white space. -/
theorem sourceEnd_eq (what : String) (lines : List Outline) (c : Cursor) (f : Facts) :
    sourceEnd what lines c f =
      if (c.skipWhile Text.isSpace).rest = [] then
        .ok (Outline.concat lines) (c.skipWhile Text.isSpace) f
      else .miss (c.skipWhile Text.isSpace).index [what] f := by
  have hspaces : sourceEnd what lines c f = (notFollowedBy anyChar what
      (c.skipWhile Text.isSpace) f).bind fun _ c₁ f₁ => .ok (Outline.concat lines) c₁ f₁ := rfl
  rw [hspaces, notFollowedBy, anyChar, satisfy]
  cases (c.skipWhile Text.isSpace).rest <;> rfl

/-- A source that is read has lines from its first thing up to its end. -/
theorem source_eq_ok (h : source registry c f = .ok o c' f') (hne : c.first.rest ≠ []) :
    ∃ lines c₁, sourceLines registry c c.first f = .ok lines c₁ f' ∧
      (c₁.skipWhile Text.isSpace).rest = [] ∧ o = Outline.concat lines := by
  obtain ⟨what, heq⟩ := source_eq registry hne f
  rw [heq] at h
  cases hlines : sourceLines registry c c.first f with
  | ok lines c₁ f₁ =>
    rw [hlines] at h
    change sourceEnd what lines _ f₁ = _ at h
    rw [sourceEnd_eq] at h
    split at h
    · cases h
      exact ⟨lines, c₁, rfl, ‹_›, rfl⟩
    · cases h
  | miss => rw [hlines] at h; cases h
  | fatal => rw [hlines] at h; cases h

/-- A source whose lines are read up to its end is read. -/
theorem source_of_lines (hne : c.first.rest ≠ [])
    (h : sourceLines registry c c.first f = .ok lines c' f')
    (hend : (c'.skipWhile Text.isSpace).rest = []) :
    ∃ c'', source registry c f = .ok (Outline.concat lines) c'' f' := by
  obtain ⟨what, heq⟩ := source_eq registry hne f
  rw [heq, h]
  change ∃ c'', sourceEnd what lines (c'.withReference c.reference) f' = _
  rw [sourceEnd_eq]
  exact ⟨_, if_pos hend⟩

/-- No repetition goes on without end. -/
theorem sourceLines_ends (registry : Registry) {c : Cursor} (hne : c.first.rest ≠ []) (f : Facts) :
    ¬(sourceLines registry c c.first f).Endless := by
  rintro ⟨i, f', h⟩
  obtain ⟨what, heq⟩ := source_eq registry hne f
  have hfatal : (source registry c f).outcome = .error (.fatal i .endless) := by
    rw [heq, h]
    rfl
  exact ((walks_source f (.refl c) (Nat.lt_succ_self _)).of_fatal hfatal).2 rfl

/-- Lines that are read alike, behind others that claimed ids before. -/
theorem follows_levelled {R : Nat → List Region → Cursor → Cursor → Prop}
    {L : Nat → Cursor → Cursor → Prop} (hL : Levelled R L) {m : Nat} (hm : 0 < m)
    {base : List String} {n n' : Nat} :
    Follows base (R m []) (block (line registry (.upTo registry n)) same 0)
      (block (line registry (.upTo registry n')) same 0) Eq (L m) Never := by
  have hfollow : Follows base (R m []) (block (line registry (.upTo registry n)) same 0)
      (block (line registry (.upTo registry n')) same 0) (fun os os' => os.map id = os'.map id)
      (L m) fun os => ∃ o ∈ os.getLast?, o.EndsIn fun _ => False :=
    .block (Nat.zero_le 1) (claims_line (claim_upTo _)) silent_same
      ((follows_line hL hm (follow_upTo hL.inStep (follows_line hL) _ _)).pre
        fun _ _ h => ⟨h, trivial⟩)
      (fun c d hcd hend => .inl (hL.atEnd hcd ▸ hend)) (fun _ _ => heads_next hL.inStep)
      (fun _ _ => agree_same hL.inStep) fun _ _ h => h.1.1
  refine (hfollow.mono (fun os os' h => ?_) fun _ _ h => h).opens ?_
  · rwa [List.map_id, List.map_id] at h
  · rintro _ ⟨_, -, _, -, hopen⟩
    exact hopen.elim

/-- Sources of which the lines are read alike say the same. -/
theorem source_of_levelled {R : Nat → List Region → Cursor → Cursor → Prop}
    {L : Nat → Cursor → Cursor → Prop} (hL : Levelled R L) {m : Nat} (hm : 0 < m)
    (hR : R m [] c.first d.first) (hids : g.ids = f.ids) (h : source registry c f = .ok o c' f') :
    ∃ d' g', source registry d g = .ok o d' g' := by
  have hnil := (hL.aligned m).nil hR
  by_cases hend : c.first.rest = []
  · rw [source_of_end hend] at h
    cases h
    exact ⟨_, _, source_of_end (hnil.1 hend)⟩
  obtain ⟨lines, c₁, hlines, hrest, rfl⟩ := source_eq_ok h hend
  have hne : d.first.rest ≠ [] := fun hd => hend (hnil.2 hd)
  have hfollow : Follows [] (R m []) (sourceLines registry c) (sourceLines registry d) Eq (L m)
      Never := follows_levelled hL hm
  obtain ⟨-, hopen⟩ | hendless | ⟨_, d₁, g', hlines', rfl, hL', -⟩ :=
    hfollow hR hids hlines fun _ _ => List.not_mem_nil
  · exact hopen.elim
  · exact absurd hendless (sourceLines_ends registry hne g)
  · have hgap := hL.gap (.inr hL')
    obtain ⟨d', hd'⟩ := source_of_lines hne hlines' (((hL.aligned m).nil hgap).1 hrest)
    exact ⟨d', g', hd'⟩

end Grammar

end Dialogue
