import Dialogue.Compile
import Dialogue.Proofs.Grammar.Discipline
import Dialogue.Proofs.Parser.Fatal

/-!
# Failing to compile

Compiling always comes to an end, with a graph or with an error that makes sense.

* `compile_ends`: no rule of the grammar goes on without end, as deep as rules are nested, and
  an error is at a place of the source, and tells what was expected if something was.
* `fatal_final`: a part that fails for good ends all that it is a part of. If it is run for a
  source, this is the error of the compiler.
-/

namespace Dialogue

open Dialogue.Parser
open Cursor (Below)

variable {α : Type}

/-! ## Errors -/

namespace CompileError

/-- The error is at a place of the source, and is about something. -/
structure WellFormed (source : String) (e : CompileError) : Prop where
  /-- The error is not past the end. -/
  within : e.place.byteOffset ≤ source.utf8ByteSize
  /-- The error is between two characters. -/
  valid : String.Pos.Raw.IsValid source ⟨e.place.byteOffset⟩
  /-- Something was expected if nothing else is wrong. -/
  expected {place : Location} {expected : List String} : e = .unexpected place expected →
    expected ≠ []

/-- An error is well-formed at an offset of the source, if something is expected there. -/
theorem WellFormed.of_place {source : String} {e : CompileError} {i : Nat}
    (hi : e.place = .of source.toList i)
    (he : ∀ place expected, e = .unexpected place expected → expected ≠ []) :
    e.WellFormed source := by
  have hb : Boundary source.toList e.place.byteOffset := hi ▸ Location.boundary_of _ _
  have hsize : byteSize source.toList = source.utf8ByteSize := by
    rw [← utf8ByteSize_ofList, String.ofList_toList]
  exact ⟨hsize ▸ hb.le, boundary_iff_isValid.1 hb, he _ _⟩

/-- The place of an error is that of the failure. -/
theorem place_ofFailure (source : List Char) (f : Failure) :
    (ofFailure source f).place = .of source f.index := by
  cases f <;> rfl

end CompileError

section

variable {options : Options} {registry : Grammar.Registry} {source : String} {e : CompileError}
  {f : Failure}

/-- How the rule of a whole source fails where a source is read. -/
theorem Script.read_eq_error {source : List Char} :
    Script.read options registry source = .error e ↔
      ∃ f, (Grammar.source registry (.ofChars source options.tabSize) .empty).outcome = .error f ∧
        e = .ofFailure source f := by
  rw [Script.read]
  cases (Grammar.source registry (.ofChars source options.tabSize) .empty).outcome with
  | ok answer => simp
  | error f => simp [eq_comm]

/-- A source that cannot be read cannot be compiled. -/
theorem compile_of_fails
    (h : (Grammar.source registry (.ofChars source.toList options.tabSize) .empty).outcome =
      .error f) :
    compile options registry source = .error (.ofFailure source.toList f) := by
  rw [compile, Script.read_eq_error.2 ⟨f, h, rfl⟩]
  rfl

/-- A source cannot be compiled because it cannot be read, because a jump leads nowhere, or because
    the uses of a variable contradict each other. -/
theorem compile_error_cases (h : compile options registry source = .error e) :
    (∃ f, (Grammar.source registry (.ofChars source.toList options.tabSize) .empty).outcome =
        .error f ∧ e = .ofFailure source.toList f) ∨
      (∃ c, e = .ofConflict source.toList c) ∨
      ∃ j : Found String, e = .unresolvedJump (.of source.toList j.index) j.item := by
  rw [compile] at h
  cases hread : Script.read options registry source.toList with
  | error e' =>
    rw [hread] at h
    cases h
    exact .inl (Script.read_eq_error.1 hread)
  | ok script =>
    rw [hread] at h
    change (script.facts.resolve source.toList >>= fun _ => _) = _ at h
    rw [Facts.resolve] at h
    cases hc : script.facts.categories with
    | error c =>
      rw [hc] at h
      cases h
      exact .inr (.inl ⟨c, rfl⟩)
    | ok categories =>
      rw [hc] at h
      change (script.facts.checkJumps source.toList script.outline.graph >>= fun _ => _) = _ at h
      rw [Facts.checkJumps] at h
      split at h
      · cases h
      · rename_i j _ _
        cases h
        exact .inr (.inr ⟨j, rfl⟩)

end

/-! ## The grammar comes to an end -/

namespace Grammar

variable {registry : Registry} {rule : Nested → Rule α}

/-- A source walks, and never fails without end. -/
theorem walked_source (registry : Registry) (c : Cursor) (f : Facts) :
    (source registry c f).Walked Reason.Ends c c fun _ => Below (c.remaining + 1) :=
  walks_source f (.refl c) (Nat.lt_succ_self _)

/-- Where reading a source fails for good, it is at a place of the source, and for a reason. -/
theorem source_fatal {source : List Char} {tabSize i : Nat} {x : Reason}
    (h : (Grammar.source registry (.ofChars source tabSize) .empty).outcome =
      .error (.fatal i x)) : Boundary source i ∧ x ≠ .endless :=
  have hw := (walked_source registry _ _).of_fatal h
  ⟨hw.1.boundary, hw.2⟩

/-- As many rules as there are bytes ahead are nested deep enough. -/
theorem IsRule.ends (h : IsRule registry rule) {depth : Nat} {c : Cursor} (hc : c.remaining ≤ depth)
    (f : Facts) (i : Nat) :
    (rule (.upTo registry depth) c f).outcome ≠ .error (.fatal i .endless) :=
  fun hr => ((h.stays (stay_upTo depth) f (.refl c) (Nat.lt_succ_of_le hc)).of_fatal hr).2 rfl

/-- In a rule that comes to an end every part does. -/
theorem runs_end {t : Plan Facts α} {c : Cursor} {f : Facts}
    (h : ∀ i, (t.parser c f).outcome ≠ .error (.fatal i .endless)) {l : List (Event Facts)}
    {r : Reply Facts α} (hl : t.Runs c f l r) (i : Nat) :
    Event.stop (some (.fatal i .endless)) ∉ l := by
  intro hmem
  obtain ⟨before, after, rfl⟩ := List.append_of_mem hmem
  have hfatal := (hl.final (Event.fatal?_eq_some.2 rfl)).1
  rw [Reply.fatal?_eq_some, ← hl.reply_eq] at hfatal
  exact h i hfatal

end Grammar

open Grammar

/-- Reading a source comes to an end: as many rules as there are bytes ahead are nested deep
    enough, and no repetition that is run for a rule goes on without end. If the source does not
    compile, the error is at a place of the source, and tells what was expected if something
    was. -/
theorem compile_ends (options : Options) (registry : Registry) (source : String) :
    (∀ {α : Type} {rule : Nested → Rule α}, IsRule registry rule →
        (∀ depth (c : Cursor) f i, c.remaining ≤ depth →
          (rule (.upTo registry depth) c f).outcome ≠ .error (.fatal i .endless)) ∧
        (∃ t : Plan Facts α, t.Leaves (fun p => Elementary p ∨ Leaf p) ∧
          t.parser = complete registry rule) ∧
        ∀ t : Plan Facts α, t.parser = complete registry rule → ∀ c f l r, t.Runs c f l r →
          ∀ i, Event.stop (some (.fatal i .endless)) ∉ l) ∧
      (∀ place, compile options registry source ≠ .error (.meaningless place .endless)) ∧
      ∀ e, compile options registry source = .error e → e.WellFormed source := by
  refine ⟨fun hr => ⟨fun depth c f i hc => hr.ends hc f i, built_complete fun hi => hr.built hi,
    fun t hp c f l r hl => runs_end (fun i => ?_) hl⟩, fun place h => ?_, fun e h => ?_⟩
  · rw [hp]
    exact hr.ends (Nat.le_refl _) f i
  · -- An error of reading is the only one that can be fatal, and reading comes to an end.
    obtain ⟨f, hf, he⟩ | ⟨c, he⟩ | ⟨j, he⟩ := compile_error_cases h
    · cases f with
      | miss i e => cases he
      | fatal i x =>
        cases he
        exact (source_fatal hf).2 rfl
    · cases he
    · cases he
  · obtain ⟨f, hf, rfl⟩ | ⟨c, rfl⟩ | ⟨j, rfl⟩ := compile_error_cases h
    · refine .of_place (CompileError.place_ofFailure _ f) fun place expected he => ?_
      cases f with
      | fatal i x => cases he
      | miss i e =>
        cases he
        exact ((walked_source registry _ _).of_miss hf).2
    · exact .of_place rfl nofun
    · exact .of_place rfl nofun

/-- The error of a line that nobody says. -/
theorem compile_ends_accent :
    ∃ e, compile {} (fun _ => none) "é" = .error e ∧ e.WellFormed "é" := by
  have hfails : (compile {} (fun _ => none) "é").toBool = false := by decide +kernel
  cases h : compile {} (fun _ => none) "é" with
  | ok graph => rw [h] at hfails; cases hfails
  | error e => exact ⟨e, rfl, (compile_ends {} (fun _ => none) "é").2.2 e h⟩

/-! ## Fatal failures -/

/-- What a run of a plan looks like where a part fails for good. -/
structure Plan.Final {σ : Type} (t : Plan σ α) (l : List (Event σ)) (r : Reply σ α) : Prop where
  /-- Nothing is started any more, all that is open stops with the failure, and so does the
      plan. -/
  ends {before after : List (Event σ)} {i : Nat} {x : Reason} :
    l = before ++ .stop (some (.fatal i x)) :: after →
      (∀ e ∈ after, e = .stop (some (.fatal i x))) ∧ r.outcome = .error (.fatal i x)
  /-- A plan that fails for good does so with a part, unless it has none. -/
  comes {i : Nat} {x : Reason} : r.outcome = .error (.fatal i x) → x ≠ .endless →
    .stop (some (.fatal i x)) ∈ l ∨ ∃ p, t = .leaf p

/-- In every run of a plan, what is fatal is final. -/
theorem Plan.Runs.final_of {σ : Type} {t : Plan σ α} {c : Cursor} {j : σ} {l : List (Event σ)}
    {r : Reply σ α} (h : t.Runs c j l r) : t.Final l r where
  ends {before after i x} hl := by
    subst hl
    obtain ⟨hr, hall⟩ := h.final (Event.fatal?_eq_some.2 rfl)
    exact ⟨fun e he => Event.fatal?_eq_some.1 (hall e he), Reply.fatal?_eq_some.1 hr⟩
  comes {i x} hr hx := by
    obtain ⟨e, he, hf⟩ | hp | hend := h.exists_fatal (Reply.fatal?_eq_some.2 hr)
    · exact .inl (Event.fatal?_eq_some.1 hf ▸ he)
    · exact .inr hp
    · exact absurd hend hx

/-- A fatal failure is never masked. Every plan can be run everywhere, and a part that fails for
    good is the last one that is started: all that it is a part of fails as it does. If this is
    while a source is compiled, it is the error, at the place of the failure; and nothing else
    makes a source meaningless. -/
theorem fatal_final :
    (∀ {σ α : Type} (t : Plan σ α) c j, (∃ l r, t.Runs c j l r) ∧
        ∀ l r, t.Runs c j l r → t.parser c j = r ∧ t.Final l r) ∧
      ∀ registry, ∃ t : Plan Facts Outline, t.Leaves (fun p => Elementary p ∨ Leaf p) ∧
        t.parser = Grammar.source registry ∧
        ∀ (options : Options) (source : String) l r,
          t.Runs (.ofChars source.toList options.tabSize) .empty l r →
            (∀ i x, .stop (some (.fatal i x)) ∈ l →
              compile options registry source = .error (.meaningless (.of source.toList i) x) ∧
                (Location.of source.toList i).byteOffset = i) ∧
            ∀ place x, compile options registry source = .error (.meaningless place x) →
              ∃ i, .stop (some (.fatal i x)) ∈ l ∧ place = .of source.toList i := by
  refine ⟨fun t c j => ⟨?_, fun l r h => ⟨h.reply_eq, h.final_of⟩⟩, fun registry => ?_⟩
  · obtain ⟨l, hl⟩ := t.exists_runs c j
    exact ⟨l, _, hl⟩
  obtain ⟨t, ht, hp⟩ : Built Leaf (Grammar.source registry) := built_source
  -- A plan around this one is no leaf, so that it fails with a part.
  refine ⟨.delayed fun _ => t, fun _ => ht, hp, fun options source l r h => ?_⟩
  have hr : Grammar.source registry (.ofChars source.toList options.tabSize) .empty = r :=
    hp ▸ h.reply_eq
  refine ⟨fun i x hmem => ?_, fun place x hc => ?_⟩
  · obtain ⟨before, after, hl⟩ := List.append_of_mem hmem
    have hout := hr ▸ (h.final_of.ends hl).2
    exact ⟨compile_of_fails hout, Location.byteOffset_of (source_fatal hout).1⟩
  · obtain ⟨f, hf, he⟩ | ⟨c, he⟩ | ⟨j, he⟩ := compile_error_cases hc
    · cases f with
      | miss i e => cases he
      | fatal i x =>
        cases he
        obtain hmem | ⟨p, hleaf⟩ := h.final_of.comes (hr ▸ hf) (source_fatal hf).2
        · exact ⟨i, hmem, rfl⟩
        · cases hleaf
    · cases he
    · cases he

/-- A pause as long as a binding says that does not exist. -/
theorem fatal_final_binding :
    ∃ t : Plan Facts Outline, t.parser = Grammar.source (fun _ => none) ∧
      ∀ l r, t.Runs (.ofChars "pause f() s".toList 4) .empty l r →
        ∃ i, .stop (some (.fatal i (.unknownBinding "f"))) ∈ l := by
  obtain ⟨t, -, hp, hruns⟩ := fatal_final.2 fun _ => none
  refine ⟨t, hp, fun l r h => ?_⟩
  have hfails : (match compile {} (fun _ => none) "pause f() s" with
      | .ok _ => none
      | .error e => some e) = some (.meaningless ⟨6, 6, 1, 7⟩ (.unknownBinding "f")) := by
    decide +kernel
  cases hc : compile {} (fun _ => none) "pause f() s" with
  | ok graph => rw [hc] at hfails; cases hfails
  | error e =>
    rw [hc] at hfails
    have he := Option.some.inj hfails
    obtain ⟨i, hi, -⟩ := (hruns {} "pause f() s" l r h).2 _ _ (he ▸ hc)
    exact ⟨i, hi⟩

end Dialogue
