import Dialogue.Proofs.Expr.Normal
import Mathlib.Logic.Relation

/-!
# Concatenations

A text that is put together from others is simplified to the same tree however they are grouped.
The tree is the chain of its parts, each of them simplified and then glued to those behind it
(`simplify_eq_chain`), and the parts do not tell how they were grouped. Gluing parts that are glued
already is gluing them all (`foldr_glue_foldr`), since two literals that are joined are glued like
the one behind the other (`glue_literal_append`). So neither where a literal is split nor an empty
one makes a difference (`concat_canonical`).
-/

namespace Dialogue.Expr

/-! ## Glued parts -/

/-- Two literals are glued to what follows like their joined text. -/
theorem glue_literal_append (s t : String) (rest : List (Expr .text)) :
    glue (literal (k := .text) (s ++ t)) rest =
      glue (literal (k := .text) s) (glue (literal (k := .text) t) rest) := by
  by_cases hs : s = ""
  · subst hs
    simp [glue, literal?]
  by_cases ht : t = ""
  · subst ht
    simp [glue, literal?]
  have hst : s ++ t ≠ "" := fun h => hs (String.append_eq_empty_iff.1 h).1
  cases rest with
  | nil => simp [glue, literal?, hs, ht, hst]
  | cons d rest =>
    cases d <;> simp [glue, literal?, hs, ht, hst, String.append_assoc]

/-- A part that is glued to others is glued to what they are glued to. -/
theorem foldr_glue_glue (e : Expr .text) (es rest : List (Expr .text)) :
    (glue e es).foldr glue rest = glue e (es.foldr glue rest) := by
  cases hlit : e.literal? with
  | none => rw [glue, hlit, List.foldr_cons]
  | some s =>
    obtain rfl := eq_literal_of_literal? hlit
    by_cases hs : s = ""
    · subst hs
      simp [glue, literal?]
    · cases es with
      | nil => simp [glue, literal?, hs]
      | cons d es =>
        cases d with
        | literal t =>
          rw [List.foldr_cons, ← glue_literal_append]
          simp [glue, literal?, hs]
        | _ => simp [glue, literal?, hs]

/-- Parts may be glued before others are glued to them. -/
theorem foldr_glue_foldr (es rest : List (Expr .text)) :
    (es.foldr glue []).foldr glue rest = es.foldr glue rest := by
  induction es with
  | nil => rfl
  | cons e es ih => rw [List.foldr_cons, foldr_glue_glue, ih, List.foldr_cons]

/-! ## Parts of chains -/

/-- Parts that are collected already are put behind the others. -/
theorem parts_append (e : Expr .text) (es : List (Expr .text)) :
    e.parts es = e.parts [] ++ es := by
  match e with
  | .concat l r => rw [parts, parts, parts_append l, parts_append r, parts_append l (r.parts []),
      List.append_assoc]
  | .literal _ | .variable _ | .call _ _ | .ofNumber _ | .ofBoolean _ | .interpolate _ => rfl

/-- What is no concatenation is its only part. -/
theorem parts_of_not_isConcat {e : Expr .text} (h : ¬ e.isConcat) (es : List (Expr .text)) :
    e.parts es = e :: es := by
  cases e with
  | concat l r => exact absurd rfl h
  | _ => rfl

/-- A chain has its first operand's parts, and then its other operands. -/
theorem parts_foldl_concat (e : Expr .text) {es : List (Expr .text)}
    (h : ∀ d ∈ es, ¬ d.isConcat) : (es.foldl concat e).parts [] = e.parts [] ++ es := by
  induction es generalizing e with
  | nil => rw [List.foldl_nil, List.append_nil]
  | cons d es ih =>
    obtain ⟨hd, hes⟩ := List.forall_mem_cons.1 h
    rw [List.foldl_cons, ih _ hes, parts, parts_of_not_isConcat hd, parts_append,
      List.append_assoc, List.singleton_append]

/-- The parts of a chain are glued like those that it is made of. -/
theorem foldr_glue_parts_chain {es : List (Expr .text)} (h : ∀ e ∈ es, ¬ e.isConcat)
    (rest : List (Expr .text)) :
    ((chain es).parts []).foldr glue rest = es.foldr glue rest := by
  cases es with
  | nil => rfl
  | cons e es =>
    obtain ⟨he, hes⟩ := List.forall_mem_cons.1 h
    rw [chain, parts_foldl_concat e hes, parts_of_not_isConcat he, List.singleton_append]

/-- A tidy list has no concatenations. -/
theorem Tidy.not_isConcat {es : List (Expr .text)} (h : Tidy es) : ∀ e ∈ es, ¬ e.isConcat := by
  induction h with
  | nil => exact List.forall_mem_nil _
  | cons part _ _ _ ih => exact List.forall_mem_cons.2 ⟨part.1, ih⟩

/-- A text in normal form is the chain of its parts, glued. -/
theorem Normal.eq_chain {e : Expr .text} (he : e.Normal) :
    e = chain ((e.parts []).foldr glue []) := by
  by_cases hempty : e.literal? = some ""
  · obtain rfl := eq_literal_of_literal? hempty
    rfl
  · obtain ⟨hpart, hnormal⟩ := he.lastPart hempty
    have htidy : Tidy (e.parts []) := .parts he hempty (.cons hpart hnormal nofun .nil)
    rw [htidy.foldr_glue_eq, chain_parts he, List.foldl_nil]

section

variable [Arithmetic]

/-! ## Simplification -/

/-- What is no concatenation is simplified to none. -/
theorem isConcat_simplify {e : Expr .text} (h : ¬ e.isConcat) : ¬ e.simplify.isConcat := by
  cases e with
  | concat l r => exact absurd rfl h
  | ofNumber d | ofBoolean d =>
    rw [simplify]
    rcases foldOne_cases _ _ d.simplify with ⟨v, -, hv⟩ | hbuild
    · rw [hv]
      exact nofun
    · rw [hbuild]
      exact nofun
  | _ => rw [simplify]; exact nofun

/-- The parts of a simplified text are glued like the simplified parts of the text. -/
theorem foldr_glue_parts_simplify (e : Expr .text) (rest : List (Expr .text)) :
    (e.simplify.parts []).foldr glue rest = ((e.parts []).map simplify).foldr glue rest := by
  have hpart {e : Expr .text} (he : ¬ e.isConcat) :
      (e.simplify.parts []).foldr glue rest = ((e.parts []).map simplify).foldr glue rest := by
    rw [parts_of_not_isConcat (isConcat_simplify he), parts_of_not_isConcat he, List.map_cons,
      List.map_nil]
  match e with
  | .concat l r =>
    have htidy : Tidy ((l.simplify.parts (r.simplify.parts [])).foldr glue []) :=
      tidy_foldr_glue fun d hd =>
        (mem_parts l.normal_simplify hd).elim id fun hd =>
          (mem_parts r.normal_simplify hd).resolve_right List.not_mem_nil
    rw [simplify, join, foldr_glue_parts_chain htidy.not_isConcat, foldr_glue_foldr,
      parts_append l.simplify, List.foldr_append, foldr_glue_parts_simplify r,
      foldr_glue_parts_simplify l, parts, parts_append l (r.parts []), List.map_append,
      List.foldr_append]
  | .literal _ | .variable _ | .call _ _ | .ofNumber _ | .ofBoolean _ | .interpolate _ =>
    exact hpart Bool.false_ne_true

/-- A simplified text is made of the simplified parts of the text. -/
theorem simplify_eq_chain (e : Expr .text) :
    e.simplify = chain (((e.parts []).map simplify).foldr glue []) := by
  rw [← foldr_glue_parts_simplify]
  exact e.normal_simplify.eq_chain

/-- The parts of a text, each of them simplified, glued onto others. -/
def onto (e : Expr .text) (rest : List (Expr .text)) : List (Expr .text) :=
  ((e.parts []).map simplify).foldr glue rest

/-- A concatenation is put onto a list operand by operand. -/
@[simp] theorem onto_concat (l r : Expr .text) (rest : List (Expr .text)) :
    (concat l r).onto rest = l.onto (r.onto rest) := by
  rw [onto, parts, parts_append l, List.map_append, List.foldr_append]
  rfl

/-- A literal that is split is put onto a list as one. -/
theorem onto_literal_append (s t : String) (rest : List (Expr .text)) :
    (literal (k := .text) (s ++ t)).onto rest =
      (literal (k := .text) s).onto ((literal (k := .text) t).onto rest) :=
  glue_literal_append s t rest

/-- An empty literal puts nothing onto a list. -/
@[simp] theorem onto_empty (rest : List (Expr .text)) :
    (literal (k := .text) "").onto rest = rest := by
  simp [onto, parts, simplify, glue, literal?]

/-- Texts that are glued alike are simplified to the same tree. -/
theorem simplify_eq_of_onto {d e : Expr .text} (h : d.onto [] = e.onto []) :
    d.simplify = e.simplify := by
  rw [simplify_eq_chain d, simplify_eq_chain e]
  exact congrArg chain h

/-! ## The canonical form -/

/-- A step between sequences of parts that make the same text: two neighbouring literals are joined,
    or an empty one is left out. -/
inductive Rejoin : List (Expr .text) → List (Expr .text) → Prop where
  /-- Two neighbouring literals are one. -/
  | join (es : List (Expr .text)) (s t : String) (rest : List (Expr .text)) :
    Rejoin (es ++ literal (k := .text) s :: literal (k := .text) t :: rest)
      (es ++ literal (k := .text) (s ++ t) :: rest)
  /-- An empty literal is nothing. -/
  | drop (es rest : List (Expr .text)) : Rejoin (es ++ literal (k := .text) "" :: rest) (es ++ rest)

/-- Splitting a literal makes no difference to what is glued. -/
theorem Rejoin.foldr_glue {es es' : List (Expr .text)} (h : Rejoin es es') :
    (es.map simplify).foldr glue [] = (es'.map simplify).foldr glue [] := by
  cases h with
  | join es s t rest =>
    simp only [List.map_append, List.map_cons, List.foldr_append, List.foldr_cons, simplify,
      glue_literal_append]
  | drop es rest =>
    simp only [List.map_append, List.map_cons, List.foldr_append, List.foldr_cons, simplify]
    simp [glue, literal?]

/-- Splitting and joining literals any number of times makes no difference. -/
theorem foldr_glue_of_rejoins {es es' : List (Expr .text)} (h : Relation.EqvGen Rejoin es es') :
    (es.map simplify).foldr glue [] = (es'.map simplify).foldr glue [] := by
  induction h with
  | rel _ _ h => exact h.foldr_glue
  | refl => rfl
  | symm _ _ _ ih => exact ih.symm
  | trans _ _ _ _ _ ih ih' => exact ih.trans ih'

/-- Concatenation has a canonical form. It does not matter how texts are grouped, nor whether they
    are simplified before they are put together, and the empty text is neutral. So texts whose parts
    are the same, up to where their literals are split, are simplified to the same tree. -/
theorem concat_canonical (a b c : Expr .text) :
    (concat (concat a b) c).simplify = (concat a (concat b c)).simplify ∧
      (concat a b).simplify = (concat a.simplify b.simplify).simplify ∧
      (concat a (literal (k := .text) "")).simplify = a.simplify ∧
      (concat (literal (k := .text) "") a).simplify = a.simplify ∧
      ∀ d e : Expr .text, Relation.EqvGen Rejoin (d.parts []) (e.parts []) →
        d.simplify = e.simplify := by
  -- What a text is simplified to depends on its parts, however they are split and joined.
  have hrejoin (d e : Expr .text) (h : Relation.EqvGen Rejoin (d.parts []) (e.parts [])) :
      d.simplify = e.simplify := by
    rw [simplify_eq_chain d, simplify_eq_chain e, foldr_glue_of_rejoins h]
  refine ⟨hrejoin _ _ ?_, ?_, hrejoin _ _ ?_, hrejoin _ _ ?_, hrejoin⟩
  · exact .refl _
  · rw [simplify, simplify, a.normal_simplify.simplify_eq, b.normal_simplify.simplify_eq]
  · have hparts : (concat a (literal (k := .text) "")).parts [] =
        a.parts [] ++ [literal (k := .text) ""] := parts_append a _
    have hdrop := Rejoin.drop (a.parts []) []
    rw [List.append_nil, ← hparts] at hdrop
    exact .rel _ _ hdrop
  · exact .rel _ _ (.drop [] (a.parts []))

end

/-- A greeting in three pieces, and in two with an empty text between them. -/
theorem concat_canonical_greeting :
    (concat (literal (k := .text) "Good ") (concat (literal (k := .text) "day, ")
        (interpolate "name"))).simplify =
      (concat (concat (literal (k := .text) "Good day, ") (literal (k := .text) ""))
        (interpolate "name")).simplify := by
  refine (concat_canonical (interpolate "name") (interpolate "name") (interpolate "name")).2.2.2.2
    _ _ ?_
  refine .trans _ _ _ (.rel _ _ (.join [] "Good " "day, " [interpolate "name"])) ?_
  exact .symm _ _ (.rel _ _ (.drop [literal (k := .text) "Good day, "] [interpolate "name"]))

end Dialogue.Expr
