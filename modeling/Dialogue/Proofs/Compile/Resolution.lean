import Dialogue.Compile
import Dialogue.Proofs.Compile.Categories

/-!
# The categories that are found

The uses of a script are taken account of in the order of the source
(`Found.inSourceOrder_inOrder`), up to the first that makes the log inconsistent
(`Facts.represents_resolveFrom`). So a script has categories if its log is consistent, and
they are those that connected variables are used as; otherwise the error is at the first
use that contradicts the log before it, and explains how (`Facts.resolve_spec`). Nothing but
the error depends on the order in which the uses were found (`Facts.resolve_exact`).
-/

namespace Dialogue

/-! ## The order of the source -/

namespace Found

variable {α : Type}

/-- A list in the order of the source: nothing is lost or added, offsets increase, and what
    was found at one offset stays in the order given. -/
structure InSourceOrder (xs ys : List (Found α)) : Prop where
  perm : ys.Perm xs
  sorted : ys.Pairwise fun x y => x.index ≤ y.index
  stable : ∀ i, ys.filter (·.index = i) = xs.filter (·.index = i)

/-- Inserting a fact adds it. -/
theorem perm_insert (x : Found α) (ys : List (Found α)) : (insert x ys).Perm (x :: ys) := by
  induction ys with
  | nil => exact .refl _
  | cons y ys ih =>
    rw [insert]
    split
    · exact .refl _
    · exact (ih.cons y).trans (.swap ..)

/-- Putting facts in order loses none. -/
theorem perm_inOrder (xs : List (Found α)) : (inOrder xs).Perm xs := by
  induction xs with
  | nil => exact .refl _
  | cons x xs ih => exact (perm_insert x _).trans (ih.cons x)

/-- Facts stay in order when one is inserted. -/
theorem sorted_insert (x : Found α) {ys : List (Found α)}
    (h : ys.Pairwise fun x y => x.index ≤ y.index) :
    (insert x ys).Pairwise fun x y => x.index ≤ y.index := by
  induction ys with
  | nil => exact List.pairwise_singleton ..
  | cons y ys ih =>
    obtain ⟨hy, hys⟩ := List.pairwise_cons.1 h
    rw [insert]
    split
    · rename_i hxy
      refine List.pairwise_cons.2 ⟨fun z hz => ?_, h⟩
      rcases List.mem_cons.1 hz with rfl | hz
      · exact hxy
      · exact Nat.le_trans hxy (hy z hz)
    · rename_i hxy
      refine List.pairwise_cons.2 ⟨fun z hz => ?_, ih hys⟩
      rcases List.mem_cons.1 ((perm_insert x ys).mem_iff.1 hz) with rfl | hz
      · omega
      · exact hy z hz

/-- A fact is inserted before others of the same offset. -/
theorem filter_insert (i : Nat) (x : Found α) (ys : List (Found α)) :
    (insert x ys).filter (·.index = i) = (x :: ys).filter (·.index = i) := by
  induction ys with
  | nil => rfl
  | cons y ys ih =>
    rw [insert]
    split
    · rfl
    · -- `x` moves past `y`, which has another offset.
      rename_i hxy
      rw [List.filter_cons, ih]
      by_cases hy : y.index = i
      · have hx : x.index ≠ i := by omega
        simp [hx, hy]
      · simp [List.filter_cons, hy]

/-- Facts in order are in that of the source. -/
theorem inSourceOrder_inOrder (xs : List (Found α)) : InSourceOrder xs (inOrder xs) where
  perm := perm_inOrder xs
  sorted := by
    induction xs with
    | nil => exact .nil
    | cons x xs ih => exact sorted_insert x ih
  stable i := by
    induction xs with
    | nil => rfl
    | cons x xs ih =>
      rw [inOrder, List.foldr_cons, filter_insert, List.filter_cons, List.filter_cons]
      rw [inOrder] at ih
      rw [ih]

end Found

/-! ## Logs of a source -/

namespace Facts

open Use (Connected Consistent KnownAs)

/-- Uses are taken account of up to the first that makes the log inconsistent. -/
theorem represents_resolveFrom {unifier : Unifier} {us : List Use}
    (hr : unifier.Represents us) (found : List (Found Use)) :
    match resolveFrom unifier found with
    | .ok unifier' => unifier'.Represents (us ++ found.map (·.item))
    | .error e => ∃ before u after, found = before ++ u :: after ∧ e.index = u.index ∧
        Consistent (us ++ before.map (·.item)) ∧
        e.item.Explains (us ++ before.map (·.item)) u.item := by
  -- By induction on the uses that are left: the unifier represents those that are taken account of.
  induction found generalizing unifier us with
  | nil => simpa [resolveFrom] using hr
  | cons u found ih =>
    have hrefine := hr.refine u.item
    cases hu : unifier.refine u.item with
    | error e =>
      rw [hu] at hrefine
      simp only [resolveFrom, hu]
      refine ⟨[], u, found, rfl, rfl, ?_, ?_⟩
      · simpa using hr.consistent
      · simpa using hrefine
    | ok unifier₁ =>
      rw [hu] at hrefine
      have ih := ih hrefine
      simp only [resolveFrom, hu]
      split at ih
      · simpa using ih
      · obtain ⟨before, u', after, rfl, hindex, hbefore, hafter⟩ := ih
        refine ⟨u :: before, u', after, rfl, hindex, ?_, ?_⟩
        · simpa using hbefore
        · simpa using hafter

/-- What the uses of a source resolve to. -/
theorem resolve_spec (f : Facts) (source : List Char) :
    match f.resolve source with
    | .ok T => Consistent (f.uses.map (·.item)) ∧
        ∀ n k, T.get? n = some k ↔ KnownAs (f.uses.map (·.item)) n k
    | .error e => ¬ Consistent (f.uses.map (·.item)) ∧
        ∃ before u after conflict, Found.inOrder f.uses = before ++ u :: after ∧
          Consistent (before.map (·.item)) ∧
          conflict.Explains (before.map (·.item)) u.item ∧
          e = .category (.of source u.index) conflict := by
  have hspec := represents_resolveFrom .empty (Found.inOrder f.uses)
  have hperm := (Found.perm_inOrder f.uses).map (·.item)
  rw [resolve, categories]
  cases hres : resolveFrom .empty (Found.inOrder f.uses) with
  | ok unifier =>
    simp only [hres, List.nil_append] at hspec
    refine ⟨(Use.consistent_congr hperm).1 hspec.consistent, fun n k => ?_⟩
    exact hspec.get?_resolved_iff.trans (Use.knownAs_congr hperm)
  | error e =>
    simp only [hres, List.nil_append] at hspec
    obtain ⟨before, u, after, hsplit, hindex, hbefore, hexplains⟩ := hspec
    refine ⟨fun hc => hexplains.not_consistent
      (((Use.consistent_congr hperm).2 hc).anti ?_), before, u, after, e.item, hsplit, hbefore,
      hexplains, ?_⟩
    · rw [hsplit]
      simp
    · rw [← hindex]
      rfl

/-- A variable that is used as one of a category is found to have that category. -/
theorem get?_categories {f : Facts} {T : Catalog Category} {name : String} {k : Category}
    (h : f.categories = .ok T) (hu : .typed name k ∈ f.uses.map (·.item)) :
    T.get? name = some k := by
  have hspec := f.resolve_spec []
  rw [resolve, h] at hspec
  exact (hspec.2 name k).2 (.of_mem hu)

/-- Resolution is exact. Uses are taken in the order of the source. It fails if and only if
    the log is inconsistent, and then at the first use whose log up to it is inconsistent.
    Otherwise a variable has the category that a variable connected with it is used as. So
    neither whether it succeeds nor what it finds depends on the order of the log. -/
theorem resolve_exact (f : Facts) (source : List Char) :
    Found.InSourceOrder f.uses (Found.inOrder f.uses) ∧
      ((∃ e, f.resolve source = .error e) ↔ ¬ Consistent (f.uses.map (·.item))) ∧
      (∀ e, f.resolve source = .error e →
        ∃ before u after conflict, Found.inOrder f.uses = before ++ u :: after ∧
          Consistent (before.map (·.item)) ∧ ¬ Consistent ((before ++ [u]).map (·.item)) ∧
          e = .category (.of source u.index) conflict) ∧
      (∀ T, f.resolve source = .ok T → ∀ n k, T.get? n = some k ↔
        ∃ m, Connected (f.uses.map (·.item)) n m ∧ .typed m k ∈ f.uses.map (·.item)) ∧
      ∀ f' : Facts, f'.uses.Perm f.uses →
        (f'.resolve source).toOption = (f.resolve source).toOption := by
  -- All but the order of the uses is read off what going through them in the order of the source
  -- finds.
  have hspec := f.resolve_spec source
  refine ⟨Found.inSourceOrder_inOrder f.uses, ?_, ?_, ?_, fun f' hperm => ?_⟩
  · cases hres : f.resolve source with
    | ok T =>
      rw [hres] at hspec
      exact iff_of_false nofun (not_not_intro hspec.1)
    | error e =>
      rw [hres] at hspec
      exact iff_of_true ⟨e, rfl⟩ hspec.1
  · intro e he
    rw [he] at hspec
    obtain ⟨-, before, u, after, conflict, hsplit, hbefore, hexplains, hplace⟩ := hspec
    refine ⟨before, u, after, conflict, hsplit, hbefore, ?_, hplace⟩
    rw [List.map_append]
    exact hexplains.not_consistent
  · intro T hT
    rw [hT] at hspec
    exact hspec.2
  · -- Consistency and what a variable is known as do not depend on the order of the uses.
    have hspec' := f'.resolve_spec source
    have hitems := hperm.map (·.item)
    cases hres : f.resolve source with
    | ok T =>
      rw [hres] at hspec
      cases hres' : f'.resolve source with
      | ok T' =>
        rw [hres'] at hspec'
        refine congrArg some (Catalog.ext_get? fun n => Option.ext fun k => ?_)
        rw [hspec.2 n k, hspec'.2 n k, Use.knownAs_congr hitems]
      | error e =>
        rw [hres'] at hspec'
        exact absurd ((Use.consistent_congr hitems).2 hspec.1) hspec'.1
    | error e =>
      rw [hres] at hspec
      cases hres' : f'.resolve source with
      | ok T' =>
        rw [hres'] at hspec'
        exact absurd ((Use.consistent_congr hitems).1 hspec'.1) hspec.1
      | error e' => rfl

/-- A use and two links that lead to it, found in another order than that of the source. -/
def linkedUses : List (Found Use) :=
  [⟨2, .typed "c" .number⟩, ⟨0, .linked "a" "b"⟩, ⟨1, .linked "b" "c"⟩]

/-- Two uses that contradict each other because of a link between them. -/
def clashingUses : List (Found Use) :=
  [⟨1, .linked "a" "b"⟩, ⟨0, .typed "a" .boolean⟩, ⟨2, .typed "b" .text⟩]

/-- Linked variables get the category of one of them, and a clash is found. -/
theorem resolve_exact_sample :
    (∃ T, resolve { uses := linkedUses } [] = .ok T ∧ T.get? "a" = some .number ∧
      (resolve { uses := linkedUses.reverse } []).toOption = some T) ∧
    ∃ e, resolve { uses := clashingUses } [] = .error e ∧ ∃ before u after conflict,
      Found.inOrder clashingUses = before ++ u :: after ∧
        ¬ Consistent ((before ++ [u]).map (·.item)) ∧
        e = .category (.of [] u.index) conflict := by
  constructor
  · obtain ⟨-, -, -, hok, hperm⟩ := resolve_exact { uses := linkedUses } []
    have hT : resolve { uses := linkedUses } [] =
        .ok (.ofList [("a", .number), ("b", .number), ("c", .number)]) := by rfl
    refine ⟨_, hT, (hok _ hT "a" .number).2 ⟨"c", ?_, by simp [linkedUses]⟩, ?_⟩
    · exact .trans (n := "b") (.rel _ _ (by simp [linkedUses])) (.rel _ _ (by simp [linkedUses]))
    · rw [hperm { uses := linkedUses.reverse } (List.reverse_perm _), hT]
      rfl
  · obtain ⟨-, -, herror, -, -⟩ := resolve_exact { uses := clashingUses } []
    have he : resolve { uses := clashingUses } [] =
        .error (.category (.of [] 2) ⟨"b", .boolean, .text⟩) := by rfl
    obtain ⟨before, u, after, conflict, hsplit, -, hafter, hplace⟩ := herror _ he
    exact ⟨_, he, before, u, after, conflict, hsplit, hafter, hplace⟩

end Facts
end Dialogue
