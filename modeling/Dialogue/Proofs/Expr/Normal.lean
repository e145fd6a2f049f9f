import Dialogue.Expr.Simplify

/-!
# Normal forms

An expression is *settled* if there is nothing left to carry out at its top: an operation has an
operand that is not written out, and a concatenation goes on a chain to its left by a part that is
neither empty nor, behind a literal, one itself. An expression is *normal* if everything that it
consists of is settled, the arguments of its calls included.

Normal forms are what simplification makes (`Expr.normal_simplify`) and what it leaves alone
(`Expr.Normal.simplify_eq`), so they are its fixed points (`Expr.simplify_eq_iff`). Both are shown
of a concatenation by way of the list of its parts. Such a list is *tidy* if there is nothing to
drop and nothing to join in it, and then it is the list of the parts of its chain.
-/

namespace Dialogue

/-! ## What an expression consists of -/

mutual

/-- What an expression is put together from, at any depth. -/
def Expr.inner : {k : Category} → Expr k → List ((k : Category) × Expr k)
  | _, .literal _ | _, .variable _ | _, .compareVariables _ _ _ | _, .interpolate _ => []
  | _, .call _ args => args.inner
  | _, .not e | _, .ofNumber e | _, .ofBoolean e => ⟨_, e⟩ :: e.inner
  | _, .logic _ l r | _, .compare _ _ l r | _, .arith _ l r | _, .concat l r =>
    (⟨_, l⟩ :: l.inner) ++ ⟨_, r⟩ :: r.inner

/-- The arguments and what they are put together from. -/
def Args.inner : Args → List ((k : Category) × Expr k)
  | .nil => []
  | .cons e rest => (⟨_, e⟩ :: e.inner) ++ rest.inner

end

/-- An expression and what it is put together from. -/
def Expr.subterms {k : Category} (e : Expr k) : List ((k : Category) × Expr k) := ⟨k, e⟩ :: e.inner

/-- What is inside of a part of an expression is inside of the expression. -/
theorem Expr.mem_subterms_of_inner {k : Category} {e : Expr k} {x y : (k : Category) × Expr k}
    (ih : x ∈ e.inner → y ∈ x.2.subterms → y ∈ e.inner) (hx : x ∈ e.subterms)
    (hy : y ∈ x.2.subterms) : y ∈ e.subterms := by
  rcases List.mem_cons.1 hx with rfl | hx
  · exact hy
  · exact List.mem_cons_of_mem _ (ih hx hy)

mutual

/-- What a part at any depth is put together from is such a part, too. -/
theorem Expr.mem_inner_trans {k : Category} (e : Expr k) {x y : (k : Category) × Expr k}
    (hx : x ∈ e.inner) (hy : y ∈ x.2.subterms) : y ∈ e.inner := by
  match e with
  | .literal _ | .variable _ | .compareVariables _ _ _ | .interpolate _ =>
    rw [Expr.inner] at hx
    cases hx
  | .call _ args =>
    rw [Expr.inner] at hx ⊢
    exact args.mem_inner_trans hx hy
  | .not e | .ofNumber e | .ofBoolean e =>
    rw [Expr.inner] at hx ⊢
    exact Expr.mem_subterms_of_inner e.mem_inner_trans hx hy
  | .logic _ l r | .compare _ _ l r | .arith _ l r | .concat l r =>
    rw [Expr.inner] at hx ⊢
    exact List.mem_append.2 <| (List.mem_append.1 hx).imp
      (Expr.mem_subterms_of_inner l.mem_inner_trans · hy)
      (Expr.mem_subterms_of_inner r.mem_inner_trans · hy)

/-- What is inside of a part of arguments is inside of the arguments. -/
theorem Args.mem_inner_trans (args : Args) {x y : (k : Category) × Expr k}
    (hx : x ∈ args.inner) (hy : y ∈ x.2.subterms) : y ∈ args.inner := by
  match args with
  | .nil =>
    rw [Args.inner] at hx
    cases hx
  | .cons e rest =>
    rw [Args.inner] at hx ⊢
    exact List.mem_append.2 <| (List.mem_append.1 hx).imp
      (Expr.mem_subterms_of_inner e.mem_inner_trans · hy) (rest.mem_inner_trans · hy)

end

namespace Expr

variable {j k : Category}

/-- Is it a concatenation? -/
def isConcat : {k : Category} → Expr k → Bool
  | _, concat _ _ => true
  | _, _ => false

/-- The part that a chain ends with. -/
def lastPart : Expr .text → Expr .text
  | concat _ r => r
  | e => e

/-- A part of a chain: neither a chain itself nor empty. -/
def IsPart (e : Expr .text) : Prop := ¬ e.isConcat ∧ e.literal? ≠ some ""

/-- Nothing is left to carry out at the top of the expression. -/
def Settled : {k : Category} → Expr k → Prop
  | _, .not e | _, .ofNumber e | _, .ofBoolean e => ¬ e.isLiteral
  | _, .logic _ l r | _, .compare _ _ l r | _, .arith _ l r => ¬ (l.isLiteral ∧ r.isLiteral)
  | _, .concat l r =>
    l.literal? ≠ some "" ∧ r.IsPart ∧ ¬ (l.lastPart.isLiteral ∧ r.isLiteral)
  | _, _ => True

/-- Nothing is left to carry out anywhere in the expression. -/
def Normal (e : Expr k) : Prop := ∀ x ∈ e.subterms, x.2.Settled

end Expr

/-- Nothing is left to carry out anywhere in the arguments. -/
def Args.Normal (args : Args) : Prop := ∀ x ∈ args.inner, x.2.Settled

namespace Expr

variable {j k : Category}

/-- An expression is normal if it is settled, and so is everything inside. -/
theorem normal_iff {e : Expr k} : e.Normal ↔ e.Settled ∧ ∀ x ∈ e.inner, x.2.Settled :=
  List.forall_mem_cons

/-- What a normal expression consists of is normal. -/
theorem Normal.subterm {e : Expr k} (h : e.Normal) {x : (k : Category) × Expr k}
    (hx : x ∈ e.subterms) : x.2.Normal :=
  fun _ hy => h _ (mem_subterms_of_inner e.mem_inner_trans hx hy)

/-- An expression that is put together from one. -/
theorem normal_unary {e : Expr k} {d : Expr j} (h : e.inner = d.subterms) :
    e.Normal ↔ e.Settled ∧ d.Normal := by
  rw [normal_iff, h]
  rfl

/-- An expression that is put together from two. -/
theorem normal_binary {e : Expr k} {l r : Expr j} (h : e.inner = l.subterms ++ r.subterms) :
    e.Normal ↔ e.Settled ∧ l.Normal ∧ r.Normal := by
  rw [normal_iff, h, List.forall_mem_append]
  rfl

/-- Literals are normal. -/
@[simp] theorem normal_literal (v : k.Carrier) : (literal v).Normal := by
  simp [normal_iff, Settled, inner]

/-- Variables are normal. -/
@[simp] theorem normal_variable (name : String) : (Expr.variable (k := k) name).Normal := by
  simp [normal_iff, Settled, inner]

/-- A comparison of two variables by name is normal. -/
@[simp] theorem normal_compareVariables (op : CompareOp) (l r : String) :
    (compareVariables op l r).Normal := by
  simp [normal_iff, Settled, inner]

/-- A variable that is put into a text by name is normal. -/
@[simp] theorem normal_interpolate (name : String) : (interpolate name).Normal := by
  simp [normal_iff, Settled, inner]

/-- A call is normal if its arguments are. -/
theorem normal_call {name : String} {args : Args} :
    (call (k := k) name args).Normal ↔ args.Normal := by
  simp [normal_iff, Settled, inner, Args.Normal]

/-- A negation is normal if its operand is, and is not written out. -/
theorem normal_not {e : Expr .boolean} : e.not.Normal ↔ ¬ e.isLiteral ∧ e.Normal :=
  normal_unary (by rw [inner, subterms])

/-- The text of a number is normal if the number is, and is not written out. -/
theorem normal_ofNumber {e : Expr .number} : e.ofNumber.Normal ↔ ¬ e.isLiteral ∧ e.Normal :=
  normal_unary (by rw [inner, subterms])

/-- The text of a truth value is normal if that is, and is not written out. -/
theorem normal_ofBoolean {e : Expr .boolean} :
    e.ofBoolean.Normal ↔ ¬ e.isLiteral ∧ e.Normal :=
  normal_unary (by rw [inner, subterms])

/-- An operation of logic is normal if its operands are, and not both are written out. -/
theorem normal_logic {op : LogicOp} {l r : Expr .boolean} :
    (logic op l r).Normal ↔ ¬ (l.isLiteral ∧ r.isLiteral) ∧ l.Normal ∧ r.Normal :=
  normal_binary (by rw [inner, subterms, subterms])

/-- A comparison is normal if its operands are, and not both are written out. -/
theorem normal_compare {op : CompareOp} {l r : Expr k} :
    (compare k op l r).Normal ↔ ¬ (l.isLiteral ∧ r.isLiteral) ∧ l.Normal ∧ r.Normal :=
  normal_binary (by rw [inner, subterms, subterms])

/-- Arithmetic is normal if its operands are, and not both are written out. -/
theorem normal_arith {op : ArithOp} {l r : Expr .number} :
    (arith op l r).Normal ↔ ¬ (l.isLiteral ∧ r.isLiteral) ∧ l.Normal ∧ r.Normal :=
  normal_binary (by rw [inner, subterms, subterms])

/-- A concatenation is normal if it puts a part on a chain that can take it. -/
theorem normal_concat {l r : Expr .text} :
    (concat l r).Normal ↔
      (l.literal? ≠ some "" ∧ r.IsPart ∧ ¬ (l.lastPart.isLiteral ∧ r.isLiteral)) ∧
        l.Normal ∧ r.Normal :=
  normal_binary (by rw [inner, subterms, subterms])

end Expr

/-- An empty list of arguments is normal. -/
theorem Args.normal_nil : Args.nil.Normal := by
  simp [Normal, inner]

/-- Arguments are normal if each of them is. -/
theorem Args.normal_cons {k : Category} {e : Expr k} {rest : Args} :
    (Args.cons e rest).Normal ↔ e.Normal ∧ rest.Normal := by
  rw [Normal, inner, List.forall_mem_append]
  rfl

namespace Expr

variable {j k : Category}

/-! ## Operations that are carried out -/

/-- An expression is written out if it is a literal. -/
theorem isLiteral_iff {e : Expr k} : e.isLiteral ↔ ∃ v, e = literal v := by
  rw [isLiteral, Option.isSome_iff_exists]
  refine exists_congr fun v => ⟨eq_literal_of_literal?, ?_⟩
  rintro rfl
  rfl

/-- Folding with one operand keeps the normal form. -/
theorem normal_foldOne {f : j.Carrier → k.Carrier} {build : Expr j → Expr k} {e : Expr j}
    (h : (build e).Normal ↔ ¬ e.isLiteral ∧ e.Normal) (he : e.Normal) :
    (foldOne f build e).Normal := by
  by_cases hlit : e.isLiteral
  · obtain ⟨v, rfl⟩ := isLiteral_iff.1 hlit
    exact normal_literal _
  · rcases foldOne_cases f build e with ⟨v, rfl, -⟩ | hbuild
    · exact absurd rfl hlit
    · rw [hbuild]
      exact h.2 ⟨hlit, he⟩

/-- Folding with two operands keeps the normal form. -/
theorem normal_foldTwo {f : j.Carrier → j.Carrier → k.Carrier}
    {build : Expr j → Expr j → Expr k} {l r : Expr j}
    (h : (build l r).Normal ↔ ¬ (l.isLiteral ∧ r.isLiteral) ∧ l.Normal ∧ r.Normal)
    (hl : l.Normal) (hr : r.Normal) : (foldTwo f build l r).Normal := by
  by_cases hlit : l.isLiteral ∧ r.isLiteral
  · obtain ⟨⟨v, rfl⟩, w, rfl⟩ := hlit.imp isLiteral_iff.1 isLiteral_iff.1
    exact normal_literal _
  · rcases foldTwo_cases f build l r with ⟨v, w, rfl, rfl, -⟩ | hbuild
    · exact absurd ⟨rfl, rfl⟩ hlit
    · rw [hbuild]
      exact h.2 ⟨hlit, hl, hr⟩

/-- An operand that is not written out is not folded. -/
theorem foldOne_eq {f : j.Carrier → k.Carrier} {build : Expr j → Expr k} {e : Expr j}
    (h : ¬ e.isLiteral) : foldOne f build e = build e := by
  rcases foldOne_cases f build e with ⟨v, rfl, -⟩ | hbuild
  · exact absurd rfl h
  · exact hbuild

/-- Two operands are not folded unless both are written out. -/
theorem foldTwo_eq {f : j.Carrier → j.Carrier → k.Carrier}
    {build : Expr j → Expr j → Expr k} {l r : Expr j} (h : ¬ (l.isLiteral ∧ r.isLiteral)) :
    foldTwo f build l r = build l r := by
  rcases foldTwo_cases f build l r with ⟨v, w, rfl, rfl, -⟩ | hbuild
  · exact absurd ⟨rfl, rfl⟩ h
  · exact hbuild

/-! ## Chains -/

/-- Parts of a chain in which nothing is to be dropped and nothing to be joined. -/
inductive Tidy : List (Expr .text) → Prop where
  | nil : Tidy []
  | cons {e : Expr .text} {rest : List (Expr .text)} (part : e.IsPart) (normal : e.Normal)
    (apart : ∀ d ∈ rest.head?, ¬ (e.isLiteral ∧ d.isLiteral)) (tidy : Tidy rest) :
    Tidy (e :: rest)

/-- A part of a text in normal form is normal and no chain. -/
theorem mem_parts {e : Expr .text} (he : e.Normal) {rest : List (Expr .text)} {d : Expr .text}
    (hd : d ∈ e.parts rest) : ¬ d.isConcat ∧ d.Normal ∨ d ∈ rest := by
  match e with
  | .concat l r =>
    obtain ⟨-, hl, hr⟩ := normal_concat.1 he
    rw [parts] at hd
    exact (mem_parts hl hd).elim .inl (mem_parts hr)
  | .literal _ | .variable _ | .call _ _ | .ofNumber _ | .ofBoolean _ | .interpolate _ =>
    rcases List.mem_cons.1 hd with rfl | hd
    · exact .inl ⟨nofun, he⟩
    · exact .inr hd

/-- Gluing parts leaves nothing to do. -/
theorem Tidy.glue {e : Expr .text} (hconcat : ¬ e.isConcat) (he : e.Normal)
    {rest : List (Expr .text)} (h : Tidy rest) : Tidy (e.glue rest) := by
  rw [Expr.glue]
  split
  · rename_i hlit
    have hlit' : ¬ e.isLiteral := by rw [isLiteral, hlit]; exact nofun
    exact .cons ⟨hconcat, by rw [hlit]; exact nofun⟩ he (fun _ _ h => hlit' h.1) h
  · rename_i s hlit
    split
    · exact h
    · rename_i hs
      split
      · rename_i t rest
        -- The joined literal is no more empty than its parts.
        cases h with
        | cons part normal apart tidy =>
        refine .cons ⟨nofun, fun hst => hs ?_⟩ (normal_literal _) (fun d hd h => ?_) tidy
        · exact (String.append_eq_empty_iff.1 (Option.some.inj hst)).1
        · exact apart d hd ⟨rfl, h.2⟩
      · rename_i hrest
        refine .cons ⟨hconcat, fun h => hs (Option.some.inj (hlit.symm.trans h))⟩ he ?_ h
        intro d hd hboth
        obtain ⟨t, rfl⟩ := isLiteral_iff.1 hboth.2
        obtain ⟨rest', rfl⟩ := List.head?_eq_some_iff.1 hd
        exact hrest t rest' rfl

/-- Gluing normal parts together makes a tidy list. -/
theorem tidy_foldr_glue {es : List (Expr .text)} (h : ∀ e ∈ es, ¬ e.isConcat ∧ e.Normal) :
    Tidy (es.foldr glue []) := by
  induction es with
  | nil => exact .nil
  | cons e es ih =>
    obtain ⟨⟨hconcat, he⟩, h⟩ := List.forall_mem_cons.1 h
    exact .glue hconcat he (ih h)

/-- Nothing is done to tidy parts. -/
theorem Tidy.glue_eq {e : Expr .text} {rest : List (Expr .text)} (h : Tidy (e :: rest)) :
    e.glue rest = e :: rest := by
  cases h with
  | cons part normal apart tidy =>
    rw [Expr.glue]
    split
    · rfl
    · rename_i s hlit
      rw [if_neg fun hs => part.2 (hlit.trans (congrArg some hs))]
      split
      · exact absurd ⟨isLiteral_iff.2 ⟨s, eq_literal_of_literal? hlit⟩, rfl⟩ (apart _ rfl)
      · rfl

/-- In a tidy list there is nothing to glue. -/
theorem Tidy.foldr_glue_eq {es : List (Expr .text)} (h : Tidy es) : es.foldr Expr.glue [] = es := by
  induction es with
  | nil => rfl
  | cons e es ih =>
    cases h with
    | cons part normal apart tidy =>
    rw [List.foldr_cons, ih tidy]
    exact Tidy.glue_eq (.cons part normal apart tidy)

/-- A chain goes on by tidy parts. -/
theorem normal_foldl_concat {e : Expr .text} (he : e.Normal) (hempty : e.literal? ≠ some "")
    {es : List (Expr .text)} (h : Tidy es)
    (hlast : ∀ d ∈ es.head?, ¬ (e.lastPart.isLiteral ∧ d.isLiteral)) :
    (es.foldl concat e).Normal := by
  induction h generalizing e with
  | nil => exact he
  | @cons d es part normal apart tidy ih =>
    exact ih (normal_concat.2 ⟨⟨hempty, part, hlast d rfl⟩, he, normal⟩) nofun apart

/-- The last part of a part is itself. -/
theorem IsPart.lastPart_eq {e : Expr .text} (h : e.IsPart) : e.lastPart = e := by
  cases e with
  | concat l r => exact absurd rfl h.1
  | _ => rfl

/-- The chain of a tidy list is normal. -/
theorem Tidy.normal_chain {es : List (Expr .text)} (h : Tidy es) : (chain es).Normal := by
  cases h with
  | nil => exact normal_literal _
  | cons part normal apart tidy =>
    exact normal_foldl_concat normal part.2 tidy (part.lastPart_eq.symm ▸ apart)

/-- Joining two normal texts makes a normal one. -/
theorem normal_join {l r : Expr .text} (hl : l.Normal) (hr : r.Normal) : (join l r).Normal := by
  refine (tidy_foldr_glue fun e he => ?_).normal_chain
  rcases mem_parts hl he with he | he
  · exact he
  · exact (mem_parts hr he).resolve_right List.not_mem_nil

/-- The last part of a text in normal form that is not empty. -/
theorem Normal.lastPart {e : Expr .text} (he : e.Normal) (hempty : e.literal? ≠ some "") :
    e.lastPart.IsPart ∧ e.lastPart.Normal := by
  cases e with
  | concat l r =>
    obtain ⟨⟨-, hpart, -⟩, -, hr⟩ := normal_concat.1 he
    exact ⟨hpart, hr⟩
  | _ => exact ⟨⟨nofun, hempty⟩, he⟩

/-- A part has no parts but itself. -/
theorem IsPart.parts_eq {e : Expr .text} (h : e.IsPart) (rest : List (Expr .text)) :
    e.parts rest = e :: rest := by
  cases e with
  | concat l r => exact absurd rfl h.1
  | _ => rfl

/-- The parts of a text in normal form are tidy, also before others. -/
theorem Tidy.parts {e : Expr .text} (he : e.Normal) (hempty : e.literal? ≠ some "")
    {rest : List (Expr .text)} (h : Tidy (e.lastPart :: rest)) : Tidy (e.parts rest) := by
  match e with
  | .concat l r =>
    obtain ⟨⟨hl, hpart, hlast⟩, hlnormal, -⟩ := normal_concat.1 he
    rw [Expr.parts, hpart.parts_eq]
    obtain ⟨hlpart, hlpartNormal⟩ := hlnormal.lastPart hl
    refine Tidy.parts hlnormal hl (.cons hlpart hlpartNormal ?_ h)
    rintro _ ⟨⟩
    exact hlast
  | .literal _ | .variable _ | .call _ _ | .ofNumber _ | .ofBoolean _ | .interpolate _ =>
    exact h

/-- A text in normal form is the chain of its parts. -/
theorem chain_parts {e : Expr .text} (he : e.Normal) (rest : List (Expr .text)) :
    chain (e.parts rest) = rest.foldl concat e := by
  match e with
  | .concat l r =>
    obtain ⟨⟨-, hpart, -⟩, hl, -⟩ := normal_concat.1 he
    rw [parts, hpart.parts_eq, chain_parts hl, List.foldl_cons]
  | .literal _ | .variable _ | .call _ _ | .ofNumber _ | .ofBoolean _ | .interpolate _ => rfl

/-- A concatenation in normal form is what its operands are joined to. -/
theorem join_eq {l r : Expr .text} (h : (concat l r).Normal) : join l r = concat l r := by
  obtain ⟨⟨-, hpart, -⟩, -, hr⟩ := normal_concat.1 h
  have htidy : Tidy ((concat l r).parts []) :=
    .parts h nofun (.cons hpart hr nofun .nil)
  rw [join, ← parts, htidy.foldr_glue_eq, chain_parts h, List.foldl_nil]

end Expr

/-! ## Simplification -/

variable [Arithmetic]

mutual

/-- Simplification makes a normal form. -/
theorem Expr.normal_simplify : {k : Category} → (e : Expr k) → e.simplify.Normal
  | _, .literal _ | _, .variable _ | _, .compareVariables _ _ _ | _, .interpolate _ => by
    simp [Expr.simplify]
  | _, .call _ args => by
    rw [Expr.simplify]
    exact Expr.normal_call.2 (Args.normal_simplify args)
  | _, .not e => by
    rw [Expr.simplify]
    exact Expr.normal_foldOne Expr.normal_not (Expr.normal_simplify e)
  | _, .logic _ l r => by
    rw [Expr.simplify]
    exact Expr.normal_foldTwo Expr.normal_logic (Expr.normal_simplify l) (Expr.normal_simplify r)
  | _, .compare _ _ l r => by
    rw [Expr.simplify]
    exact Expr.normal_foldTwo Expr.normal_compare (Expr.normal_simplify l) (Expr.normal_simplify r)
  | _, .arith _ l r => by
    rw [Expr.simplify]
    exact Expr.normal_foldTwo Expr.normal_arith (Expr.normal_simplify l) (Expr.normal_simplify r)
  | _, .concat l r => by
    rw [Expr.simplify]
    exact Expr.normal_join (Expr.normal_simplify l) (Expr.normal_simplify r)
  | _, .ofNumber e => by
    rw [Expr.simplify]
    exact Expr.normal_foldOne Expr.normal_ofNumber (Expr.normal_simplify e)
  | _, .ofBoolean e => by
    rw [Expr.simplify]
    exact Expr.normal_foldOne Expr.normal_ofBoolean (Expr.normal_simplify e)

/-- Arguments are normal once they are simplified. -/
theorem Args.normal_simplify : (args : Args) → args.simplify.Normal
  | .nil => by
    rw [Args.simplify]
    exact Args.normal_nil
  | .cons e rest => by
    rw [Args.simplify]
    exact Args.normal_cons.2 ⟨Expr.normal_simplify e, Args.normal_simplify rest⟩

end

mutual

/-- Simplification leaves a normal form alone. -/
theorem Expr.Normal.simplify_eq : {k : Category} → {e : Expr k} → e.Normal → e.simplify = e
  | _, .literal _, _ | _, .variable _, _ | _, .compareVariables _ _ _, _
  | _, .interpolate _, _ => by
    rw [Expr.simplify]
  | _, .call _ args, h => by
    rw [Expr.simplify, Args.Normal.simplify_eq (Expr.normal_call.1 h)]
  | _, .not e, h => by
    obtain ⟨hlit, he⟩ := Expr.normal_not.1 h
    rw [Expr.simplify, Expr.Normal.simplify_eq he, Expr.foldOne_eq hlit]
  | _, .logic _ l r, h => by
    obtain ⟨hlit, hl, hr⟩ := Expr.normal_logic.1 h
    rw [Expr.simplify, Expr.Normal.simplify_eq hl, Expr.Normal.simplify_eq hr,
      Expr.foldTwo_eq hlit]
  | _, .compare _ _ l r, h => by
    obtain ⟨hlit, hl, hr⟩ := Expr.normal_compare.1 h
    rw [Expr.simplify, Expr.Normal.simplify_eq hl, Expr.Normal.simplify_eq hr,
      Expr.foldTwo_eq hlit]
  | _, .arith _ l r, h => by
    obtain ⟨hlit, hl, hr⟩ := Expr.normal_arith.1 h
    rw [Expr.simplify, Expr.Normal.simplify_eq hl, Expr.Normal.simplify_eq hr,
      Expr.foldTwo_eq hlit]
  | _, .concat l r, h => by
    obtain ⟨-, hl, hr⟩ := Expr.normal_concat.1 h
    rw [Expr.simplify, Expr.Normal.simplify_eq hl, Expr.Normal.simplify_eq hr, Expr.join_eq h]
  | _, .ofNumber e, h => by
    obtain ⟨hlit, he⟩ := Expr.normal_ofNumber.1 h
    rw [Expr.simplify, Expr.Normal.simplify_eq he, Expr.foldOne_eq hlit]
  | _, .ofBoolean e, h => by
    obtain ⟨hlit, he⟩ := Expr.normal_ofBoolean.1 h
    rw [Expr.simplify, Expr.Normal.simplify_eq he, Expr.foldOne_eq hlit]

/-- Normal arguments are left alone by simplification. -/
theorem Args.Normal.simplify_eq : {args : Args} → args.Normal → args.simplify = args
  | .nil, _ => by rw [Args.simplify]
  | .cons e rest, h => by
    obtain ⟨he, hrest⟩ := Args.normal_cons.1 h
    rw [Args.simplify, Expr.Normal.simplify_eq he, Args.Normal.simplify_eq hrest]

end

namespace Expr

variable {k : Category}

/-- The fixed points of simplification are the normal forms. -/
theorem simplify_eq_iff {e : Expr k} : e.simplify = e ↔ e.Normal :=
  ⟨fun h => h ▸ e.normal_simplify, Normal.simplify_eq⟩

/-- Simplification carries out everything at once: on what it has simplified it has nothing left
    to do. Comparisons are among the expressions, and the arguments of a call may be of any
    category. -/
theorem simplify_idempotent (e : Expr k) (args : Args) :
    e.simplify.simplify = e.simplify ∧ args.simplify.simplify = args.simplify :=
  ⟨e.normal_simplify.simplify_eq, args.normal_simplify.simplify_eq⟩

end Expr

end Dialogue
