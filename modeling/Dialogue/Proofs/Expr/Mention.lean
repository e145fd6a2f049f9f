import Dialogue.Binding
import Dialogue.Compile.Facts
import Dialogue.Expr.Simplify

/-!
# What an expression mentions

An expression *mentions* variables and bindings, from left to right: variables that must
have its category, pairs of variables that must have one category, variables that are
put into a text as whatever they hold, and calls with the signature that the call relies
on. Everything that can go wrong when an expression is evaluated is about one of its
mentions.

* `Mention.use?`, `Mention.variableNames`: the use that tells something of the categories
  of variables, and the names of all variables;
* `Expr.mentions_simplify`: simplification neither drops nor repeats nor moves a mention.
-/

namespace Dialogue

/-- What an expression mentions. -/
inductive Mention where
  /-- Variables used as of a category. -/
  | use (u : Use)
  /-- A variable put into a text. -/
  | shown (name : String)
  /-- A call of a binding, which must have the signature. -/
  | call (name : String) (signature : Signature)

namespace Mention

/-- The use of variables, if it is one that tells something of their categories. -/
def use? : Mention → Option Use
  | use u => some u
  | _ => none

/-- The variables that are mentioned. -/
def variableNames : Mention → List String
  | use (.typed name _) => [name]
  | use (.linked l r) => [l, r]
  | shown name => [name]
  | call _ _ => []

/-- A call fits if there is such a binding. -/
def Fits (registry : String → Option Signature) : Mention → Prop
  | call name signature => registry name = some signature
  | _ => True

end Mention

/-- The categories of arguments. -/
def Args.categories : Args → List Category
  | .nil => []
  | .cons (k := k) _ rest => k :: rest.categories

mutual

/-- What an expression mentions, from left to right. -/
def Expr.mentions : {k : Category} → Expr k → List Mention
  | _, .literal _ => []
  | k, .variable name => [.use (.typed name k)]
  | k, .call name args => .call name ⟨args.categories, k⟩ :: args.mentions
  | _, .not e => e.mentions
  | _, .logic _ l r => l.mentions ++ r.mentions
  | _, .compare _ _ l r => l.mentions ++ r.mentions
  | _, .compareVariables _ l r => [.use (.linked l r)]
  | _, .arith _ l r => l.mentions ++ r.mentions
  | _, .concat l r => l.mentions ++ r.mentions
  | _, .ofNumber e => e.mentions
  | _, .ofBoolean e => e.mentions
  | _, .interpolate name => [.shown name]

/-- What arguments mention, from left to right. -/
def Args.mentions : Args → List Mention
  | .nil => []
  | .cons e rest => e.mentions ++ rest.mentions

end

namespace Expr

variable {j k : Category}

/-- A literal mentions nothing. -/
@[simp] theorem mentions_literal (v : k.Carrier) : (literal v).mentions = [] := by
  rw [mentions]

/-! ## Simplification -/

/-- Folding an operand mentions what `build` does, which mentions nothing for a literal. -/
theorem mentions_foldOne {f : j.Carrier → k.Carrier} {build : Expr j → Expr k}
    (h : ∀ v, (build (literal v)).mentions = []) (e : Expr j) :
    (foldOne f build e).mentions = (build e).mentions := by
  rcases foldOne_cases f build e with ⟨v, rfl, hv⟩ | hb
  · rw [hv, mentions_literal, h]
  · rw [hb]

/-- Folding two operands drops no mention. -/
theorem mentions_foldTwo {f : j.Carrier → j.Carrier → k.Carrier}
    {build : Expr j → Expr j → Expr k}
    (h : ∀ v w, (build (literal v) (literal w)).mentions = []) (l r : Expr j) :
    (foldTwo f build l r).mentions = (build l r).mentions := by
  rcases foldTwo_cases f build l r with ⟨v, w, rfl, rfl, hvw⟩ | hb
  · rw [hvw, mentions_literal, h]
  · rw [hb]

/-- The parts of a text mention what it does. -/
theorem mentions_parts (e : Expr .text) (rest : List (Expr .text)) :
    (e.parts rest).flatMap mentions = e.mentions ++ rest.flatMap mentions := by
  match e with
  | .concat l r =>
    rw [parts, mentions_parts l, mentions_parts r, mentions, List.append_assoc]
  | .literal _ | .variable _ | .call _ _ | .ofNumber _ | .ofBoolean _ | .interpolate _ =>
    rfl

/-- The literals that are dropped or joined mention nothing. -/
theorem mentions_glue (e : Expr .text) (rest : List (Expr .text)) :
    (glue e rest).flatMap mentions = e.mentions ++ rest.flatMap mentions := by
  rw [glue]
  split
  · rfl
  · rename_i t ht
    rw [eq_literal_of_literal? ht, mentions_literal, List.nil_append]
    split
    · rfl
    · split
      · simp only [List.flatMap_cons, mentions_literal, List.nil_append]
      · rw [List.flatMap_cons, mentions_literal, List.nil_append]

/-- Gluing drops no mention. -/
theorem mentions_foldr_glue (es : List (Expr .text)) :
    (es.foldr glue []).flatMap mentions = es.flatMap mentions := by
  induction es with
  | nil => rfl
  | cons e es ih => rw [List.foldr_cons, mentions_glue, ih, List.flatMap_cons]

/-- A chain mentions what its parts do. -/
theorem mentions_chain (es : List (Expr .text)) :
    (chain es).mentions = es.flatMap mentions := by
  have hfold (e : Expr .text) (es : List (Expr .text)) :
      (es.foldl concat e).mentions = e.mentions ++ es.flatMap mentions := by
    induction es generalizing e with
    | nil => rw [List.foldl_nil, List.flatMap_nil, List.append_nil]
    | cons d es ih =>
      rw [List.foldl_cons, ih, mentions, List.append_assoc, List.flatMap_cons]
  cases es with
  | nil => exact mentions_literal _
  | cons e es => exact hfold e es

/-- A join of two texts mentions what the texts do. -/
theorem mentions_join (l r : Expr .text) : (join l r).mentions = l.mentions ++ r.mentions := by
  rw [join, mentions_chain, mentions_foldr_glue, mentions_parts, mentions_parts,
    List.flatMap_nil, List.append_nil]

end Expr

/-- Simplified arguments have the same categories. -/
@[simp] theorem Args.categories_simplify [Arithmetic] (args : Args) :
    args.simplify.categories = args.categories := by
  match args with
  | .nil => rw [simplify]
  | .cons e rest => rw [simplify, categories, categories, categories_simplify rest]

mutual

/-- Simplification keeps what an expression mentions, in order. -/
theorem Expr.mentions_simplify [Arithmetic] : {k : Category} → (e : Expr k) →
    e.simplify.mentions = e.mentions
  | _, .literal _ => by rw [Expr.simplify]
  | _, .variable _ => by rw [Expr.simplify]
  | _, .call _ args => by
    rw [Expr.simplify, Expr.mentions, Expr.mentions, Args.mentions_simplify args,
      Args.categories_simplify]
  | _, .not e => by
    rw [Expr.simplify, Expr.mentions_foldOne fun v => by simp only [Expr.mentions],
      Expr.mentions, Expr.mentions, Expr.mentions_simplify e]
  | _, .logic _ l r | _, .compare _ _ l r | _, .arith _ l r => by
    rw [Expr.simplify,
      Expr.mentions_foldTwo fun v w => by simp only [Expr.mentions, List.append_nil],
      Expr.mentions, Expr.mentions, Expr.mentions_simplify l, Expr.mentions_simplify r]
  | _, .compareVariables _ _ _ => by rw [Expr.simplify]
  | _, .concat l r => by
    rw [Expr.simplify, Expr.mentions_join, Expr.mentions, Expr.mentions_simplify l,
      Expr.mentions_simplify r]
  | _, .ofNumber e | _, .ofBoolean e => by
    rw [Expr.simplify, Expr.mentions_foldOne fun v => by simp only [Expr.mentions],
      Expr.mentions, Expr.mentions, Expr.mentions_simplify e]
  | _, .interpolate _ => by rw [Expr.simplify]

/-- Simplified arguments mention the same. -/
theorem Args.mentions_simplify [Arithmetic] : (args : Args) →
    args.simplify.mentions = args.mentions
  | .nil => by rw [Args.simplify]
  | .cons e rest => by
    rw [Args.simplify, Args.mentions, Args.mentions, Expr.mentions_simplify e,
      Args.mentions_simplify rest]

end

end Dialogue
