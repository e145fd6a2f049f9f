import Dialogue.Expr.Eval
import Dialogue.Proofs.Expr.Mention

/-!
# Expressions that have a value

An expression has a value in a scope that satisfies all its mentions
(`Expr.eval_of_satisfied`): the variables hold what they are used as, and the bindings
have the signatures that the calls rely on. A binding must also return what it promises
(`Bindings.Honest`).

Changing the values of variables within their categories keeps every mention satisfied
(`Mention.Satisfied.keeps`), and that is all that `Scope.set` can do.
-/

namespace Dialogue

variable {s s' : Scope} {bs : Bindings} {k : Category}

/-- Every binding returns values of the category it promises. -/
def Bindings.Honest (bs : Bindings) : Prop :=
  ∀ name b, bs.get? name = some b → ∀ vs, (b.run vs).category = b.signature.result

/-- The category of the value of a variable. -/
def Scope.category? (s : Scope) (name : String) : Option Category :=
  (s.get? name).map Value.category

/-- What a mention asks of the variables and of the bindings. -/
def Mention.Satisfied (s : Scope) (bs : Bindings) : Mention → Prop
  | use (.typed name k) => s.category? name = some k
  | use (.linked l r) => ∃ k, s.category? l = some k ∧ s.category? r = some k
  | shown name => ∃ k, s.category? name = some k
  | call name signature => bs.signature? name = some signature

/-! ## Variables -/

/-- A variable with a category has a value of this category. -/
theorem Scope.value_ok {name : String} (h : s.category? name = some k) :
    ∃ v, s.value name = .ok v ∧ v.category = k := by
  obtain ⟨v, hv, hk⟩ := Option.map_eq_some_iff.1 h
  exact ⟨v, by rw [value, hv], hk⟩

/-- A value is had in its category. -/
theorem Value.expect_ok (name : String) {v : Value} (h : v.category = k) :
    ∃ a, v.expect k name = .ok a := by
  rw [expect]
  cases ha : v.as? k with
  | some a => exact ⟨a, rfl⟩
  | none => exact absurd h (as?_eq_none_iff.1 ha)

/-! ## Calls -/

/-- Values of their categories fit. -/
theorem Bindings.misfit?_eq_none (vs : List Value) : misfit? (vs.map (·.category)) vs = none := by
  induction vs with
  | nil => rfl
  | cons v vs ih => rw [List.map_cons, misfit?, if_pos rfl, ih]

/-- A call with fitting arguments returns what the binding promises. -/
theorem Bindings.call_ok (hbs : bs.Honest) {name : String} {vs : List Value}
    (h : bs.signature? name = some ⟨vs.map (·.category), k⟩) :
    ∃ v, bs.call name vs = .ok v ∧ v.category = k := by
  obtain ⟨b, hb, hsig⟩ := Option.map_eq_some_iff.1 h
  have hrun := hbs name b hb vs
  refine ⟨b.run vs, ?_, by rw [hrun, hsig]⟩
  rw [call]
  simp [hb, hsig, misfit?_eq_none, hrun]

/-! ## Expressions -/

mutual

/-- An expression has a value if its mentions are satisfied. -/
theorem Expr.eval_of_satisfied [Arithmetic] (hbs : bs.Honest) : {k : Category} → (e : Expr k) →
    (∀ m ∈ e.mentions, m.Satisfied s bs) → ∃ a, e.eval s bs = .ok a
  | _, .literal v, _ => ⟨v, by rw [Expr.eval]⟩
  | k, .variable name, h => by
    obtain ⟨v, hv, hk⟩ := Scope.value_ok (h _ List.mem_cons_self)
    obtain ⟨a, ha⟩ := Value.expect_ok name hk
    exact ⟨a, by rw [Expr.eval, hv]; exact ha⟩
  | k, .call name args, h => by
    obtain ⟨vs, hvs, hcat⟩ := Args.eval_of_satisfied hbs args fun m hm =>
      h m (List.mem_cons_of_mem _ hm)
    have hcall : bs.signature? name = some ⟨args.categories, k⟩ := h _ List.mem_cons_self
    obtain ⟨v, hv, hk⟩ := Bindings.call_ok hbs (hcat ▸ hcall)
    obtain ⟨a, ha⟩ := Value.expect_ok name hk
    refine ⟨a, ?_⟩
    rw [Expr.eval, hvs]
    change (bs.call name vs >>= fun v => v.expect k name) = .ok a
    rw [hv]
    exact ha
  | _, .not e, h => by
    obtain ⟨b, hb⟩ := Expr.eval_of_satisfied hbs e h
    exact ⟨!b, by rw [Expr.eval, hb]; rfl⟩
  | _, .logic op l r, h => by
    obtain ⟨a, ha⟩ := Expr.eval_of_satisfied hbs l fun m hm => h m (List.mem_append_left _ hm)
    obtain ⟨b, hb⟩ := Expr.eval_of_satisfied hbs r fun m hm => h m (List.mem_append_right _ hm)
    -- Whether the right operand is left alone or not, both have a value.
    refine ⟨op.apply a b, ?_⟩
    rw [Expr.eval, ha, hb]
    cases op <;> cases a <;> rfl
  | _, .compare k op l r, h => by
    obtain ⟨a, ha⟩ := Expr.eval_of_satisfied hbs l fun m hm => h m (List.mem_append_left _ hm)
    obtain ⟨b, hb⟩ := Expr.eval_of_satisfied hbs r fun m hm => h m (List.mem_append_right _ hm)
    exact ⟨op.apply (k.equal a b), by rw [Expr.eval, ha, hb]; rfl⟩
  | _, .compareVariables op l r, h => by
    obtain ⟨k, hl, hr⟩ := h _ List.mem_cons_self
    obtain ⟨v, hv, hvk⟩ := Scope.value_ok hl
    obtain ⟨w, hw, hwk⟩ := Scope.value_ok hr
    refine ⟨op.apply (v = w), ?_⟩
    rw [Expr.eval, hv, hw]
    exact if_pos (hvk.trans hwk.symm)
  | _, .arith op l r, h => by
    obtain ⟨a, ha⟩ := Expr.eval_of_satisfied hbs l fun m hm => h m (List.mem_append_left _ hm)
    obtain ⟨b, hb⟩ := Expr.eval_of_satisfied hbs r fun m hm => h m (List.mem_append_right _ hm)
    exact ⟨op.apply a b, by rw [Expr.eval, ha, hb]; rfl⟩
  | _, .concat l r, h => by
    obtain ⟨a, ha⟩ := Expr.eval_of_satisfied hbs l fun m hm => h m (List.mem_append_left _ hm)
    obtain ⟨b, hb⟩ := Expr.eval_of_satisfied hbs r fun m hm => h m (List.mem_append_right _ hm)
    exact ⟨a ++ b, by rw [Expr.eval, ha, hb]; rfl⟩
  | _, .ofNumber e, h => by
    obtain ⟨a, ha⟩ := Expr.eval_of_satisfied hbs e h
    exact ⟨Category.number.textOf a, by rw [Expr.eval, ha]; rfl⟩
  | _, .ofBoolean e, h => by
    obtain ⟨a, ha⟩ := Expr.eval_of_satisfied hbs e h
    exact ⟨Category.boolean.textOf a, by rw [Expr.eval, ha]; rfl⟩
  | _, .interpolate name, h => by
    obtain ⟨k, hk⟩ := h _ List.mem_cons_self
    obtain ⟨v, hv, -⟩ := Scope.value_ok hk
    exact ⟨v.display, by rw [Expr.eval, hv]; rfl⟩

/-- Arguments have values of their categories if their mentions are satisfied. -/
theorem Args.eval_of_satisfied [Arithmetic] (hbs : bs.Honest) : (args : Args) →
    (∀ m ∈ args.mentions, m.Satisfied s bs) →
    ∃ vs, args.eval s bs = .ok vs ∧ vs.map (·.category) = args.categories
  | .nil, _ => ⟨[], by rw [Args.eval], rfl⟩
  | .cons (k := k) e rest, h => by
    obtain ⟨a, ha⟩ := Expr.eval_of_satisfied hbs e fun m hm => h m (List.mem_append_left _ hm)
    obtain ⟨vs, hvs, hcat⟩ := Args.eval_of_satisfied hbs rest fun m hm =>
      h m (List.mem_append_right _ hm)
    refine ⟨Value.of k a :: vs, by rw [Args.eval, ha, hvs]; rfl, ?_⟩
    rw [List.map_cons, Value.category_of, hcat, Args.categories]

end

/-! ## Changing variables -/

/-- No variable changes its category. -/
def Scope.Keeps (s s' : Scope) : Prop :=
  ∀ name k, s.category? name = some k → s'.category? name = some k

/-- A variable may be given a value only of the category it has. -/
theorem Scope.set_keeps {name : String} {v : Value} (h : s.set name v = .ok s') : s.Keeps s' := by
  intro x k hx
  have hinsert (hv : name = x → v.category = k) : category? (s.insert name v) x = some k := by
    rw [category?]
    rw [Catalog.get?_insert]
    split
    · rename_i heq
      exact congrArg some (hv heq)
    · exact hx
  rw [set] at h
  split at h
  · rename_i old hold
    split at h
    · rename_i hcat
      cases h
      refine hinsert fun heq => ?_
      rw [← heq, category?, hold] at hx
      exact hcat.symm.trans (Option.some.inj hx)
    · cases h
  · rename_i hnone
    cases h
    refine hinsert fun heq => ?_
    rw [← heq, category?, hnone] at hx
    cases hx

/-- What is satisfied does not depend on more than the categories of the variables. -/
theorem Mention.Satisfied.keeps {m : Mention} (h : m.Satisfied s bs) (hs : s.Keeps s') :
    m.Satisfied s' bs := by
  match m with
  | .use (.typed name k) => exact hs name k h
  | .use (.linked l r) =>
    obtain ⟨k, hl, hr⟩ := h
    exact ⟨k, hs l k hl, hs r k hr⟩
  | .shown name =>
    obtain ⟨k, hk⟩ := h
    exact ⟨k, hs name k hk⟩
  | .call _ _ => exact h

end Dialogue
