import Dialogue.Compile.Facts
import Dialogue.Proofs.Parser.Line
import Dialogue.Proofs.Parser.Triple

/-!
# Rules that follow others

Claims of ids are the one thing in which a rule depends on what was read before: a second claim
of an id is fatal. So where a part of a source is read behind another part, no more can be said
than that a rule *follows* itself (`Follows`): if it answers, with the part read alone, it answers
the like at the related place with other ids claimed before, as long as it claims none of these.
Rules only *claim* ids, and give none back (`Claims`), so this is so of each of their parts.

Where a rule answers at the end of the source something that is *open*, nothing is said of what
it would answer if the source went on.
-/

namespace Dialogue

/-- The ids that were claimed. -/
def Facts.ids (f : Facts) : List String := f.declared.map (·.item)

/-- An id is declared if it is among those claimed. -/
theorem Facts.isDeclared_iff {f : Facts} {id : String} : f.isDeclared id ↔ id ∈ f.ids := by
  simp [isDeclared, ids]

/-- A declaration adds its id at the end. -/
@[simp] theorem Facts.ids_declare (f : Facts) (index : Nat) (id : String) :
    (f.declare index id).ids = f.ids ++ [id] := by
  simp [declare, ids]

/-- The journals hold the claims of ids that they held before. -/
def Facts.Idle (D E : List (Found String)) (f g : Facts) : Prop :=
  f.declared = D ∧ g.declared = E

namespace Parser

variable {α β α' β' : Type}

/-- The rule keeps all ids that were claimed. -/
def Claims (p : Rule α) : Prop := ∀ ids, Triple (ids ⊆ Facts.ids ·) p fun _ f => ids ⊆ f.ids

/-- What was claimed stays claimed. -/
theorem Claims.subset {p : Rule α} (h : Claims p) {c c' : Cursor} {f f' : Facts} {a : α}
    (hr : p c f = .ok a c' f') : f.ids ⊆ f'.ids :=
  h f.ids (fun _ h => h) hr

namespace Claims

variable {p : Rule α} {q : Rule β}

/-- What leaves no fact claims nothing. -/
theorem of_silent (h : Silent p) : Claims p := fun _ => h _

/-- What reads nothing claims nothing. -/
theorem pure (a : α) : Claims (Pure.pure a : Rule α) := .of_silent (.pure a)

/-- Two rules that claim do so one after the other. -/
theorem bind {f : α → Rule β} (hp : Claims p) (hf : ∀ a, Claims (f a)) : Claims (p >>= f) :=
  fun ids => (hp ids).bind fun a => hf a ids

/-- Mapping the answer claims nothing more. -/
theorem map {f : α → β} (hp : Claims p) : Claims (f <$> p) := hp.bind fun _ => pure _

/-- An alternative of two rules that claim does so. -/
theorem orElse {q : Rule α} (hp : Claims p) (hq : Claims q) : Claims (p <|> q) :=
  fun ids => (hp ids).orElse (hq ids)

/-- A rule at its own column claims what it does elsewhere. -/
theorem atOwnIndent (hp : Claims p) : Claims (Parser.atOwnIndent p) :=
  fun ids => (hp ids).atOwnIndent

/-- A block claims what its items do. -/
theorem block (hp : Claims p) (hq : Silent q) (owed : Nat) : Claims (Parser.block p q owed) :=
  fun ids => (Triple.block (I := fun _ f => ids ⊆ f.ids)
    (fun _ => (hp ids).seqLeft fun _ => silent_lineEnd _) fun _ => hq _).mono fun _ _ h => h.2

/-- A declaration claims its id. -/
theorem declare (index : Nat) (id : String) : Claims (Rule.declare index id) := by
  intro ids c f _ c' f' hids h
  rw [Rule.declare] at h
  split at h <;> cases h
  rw [Facts.ids_declare]
  exact fun x hx => List.mem_append_left _ (hids hx)

/-- A rule that agrees with itself leaves the claims as they are. -/
theorem of_agree (h : ∀ (c : Cursor) (D E : List (Found String)), ∃ P Q, P c c ∧
      Agree (Facts.Idle D E) P p p Q) : Claims p := by
  intro ids c f a c' f' hids hr
  obtain ⟨P, Q, hP, hagree⟩ := h c f.declared f.declared
  have h := hagree hP (j := f) (k := f) ⟨rfl, rfl⟩
  rw [hr] at h
  cases h with
  | ok _ hJ => rwa [Facts.ids, hJ.1]

end Claims

/-- Where `p` answers from a place that `P` relates, so does `q`, with the ids of `base` claimed
    before. `V` relates the values and `Q` the places. -/
def Follows (base : List String) (P : Cursor → Cursor → Prop) (p : Rule α) (q : Rule β)
    (V : α → β → Prop) (Q : Cursor → Cursor → Prop) (Open : α → Prop) : Prop :=
  ∀ ⦃c d f g a c' f'⦄, P c d → g.ids = base ++ f.ids → p c f = .ok a c' f' →
    (∀ id ∈ f'.ids, id ∉ base) →
      c'.rest = [] ∧ Open a ∨ (q d g).Endless ∨
        ∃ b d' g', q d g = .ok b d' g' ∧ V a b ∧ Q c' d' ∧ g'.ids = base ++ f'.ids

section

variable {σ : Type} {item : Parser σ α} {continues : Parser σ β} {owed n : Nat} {c c' : Cursor}
  {j j' : σ} {as : List α}

/-- What a block reads behind an item that starts where so many bytes are ahead. -/
def resume (item : Parser σ α) (continues : Parser σ β) (owed n : Nat) : Parser σ (List α) :=
  fun c j =>
    if c.atEnd then .ok [] c j
    else
      let next := c.skipWhile Text.isBlank
      match continues next j with
      | .ok _ _ j' =>
        if next.remaining < n then block item continues (owed - 1) next j'
        else .fatal next.index .endless j'
      | .miss i e _ => if owed ≤ 1 then .ok [] c j else .miss i [Failure.owing (owed - 1) e] j
      | .fatal i r j' => .fatal i r j'

/-- A block is its first line, and what it goes on with. -/
theorem block_eq : block item continues owed c j =
    ((item <* lineEnd) >>= fun a => (a :: ·) <$> resume item continues owed c.remaining) c j := by
  rw [block, bind_apply]
  cases (item <* lineEnd) c j with
  | miss => rfl
  | fatal => rfl
  | ok a c' j' =>
    change _ = (resume item continues owed c.remaining c' j').map (a :: ·)
    rw [resume]
    dsimp only
    by_cases hend : c'.atEnd
    · rw [if_pos hend, if_pos hend]
      rfl
    · rw [if_neg hend, if_neg hend]
      cases continues (c'.skipWhile Text.isBlank) j' with
      | ok => dsimp only; split <;> rfl
      | miss => dsimp only; split <;> rfl
      | fatal => rfl

/-- Behind an item that answers, the block goes on behind the end of its line. -/
theorem block_of_item {a : α} (h : item c j = .ok a c' j') : block item continues owed c j =
    ((lineEnd >>= fun _ => resume item continues owed c.remaining) c' j').map (a :: ·) := by
  rw [block_eq, seqLeft_eq_bind, bind_assoc, bind_eq h, bind_assoc, bind_apply, bind_apply]
  cases lineEnd c' j' with
  | miss => rfl
  | fatal => rfl
  | ok u c₁ j₁ =>
    change ((a :: ·) <$> resume item continues owed c.remaining) c₁ j₁ =
      (resume item continues owed c.remaining c₁ j₁).map (a :: ·)
    rw [map_eq_pure_bind, bind_apply]
    cases resume item continues owed c.remaining c₁ j₁ <;> rfl

/-- An answer of a block is that of its first line, and then those of the others. -/
theorem block_eq_ok (h : block item continues owed c j = .ok as c' j') :
    ∃ a c₁ j₁ as', (item <* lineEnd) c j = .ok a c₁ j₁ ∧
      resume item continues owed c.remaining c₁ j₁ = .ok as' c' j' ∧ as = a :: as' := by
  rw [block_eq] at h
  obtain ⟨a, c₁, j₁, hfirst, h⟩ := of_bind_eq_ok h
  obtain ⟨as', c₂, j₂, hrest, h⟩ := of_bind_eq_ok h
  cases h
  exact ⟨a, c₁, j₁, as', hfirst, hrest, rfl⟩

/-- A block ends with the source or before a line that is no part of it, or it goes on. -/
theorem resume_eq_ok (h : resume item continues owed n c j = .ok as c' j') :
    (c.atEnd ∧ as = [] ∧ c' = c ∧ j' = j) ∨
      ¬c.atEnd ∧ ((∃ i e k, continues (c.skipWhile Text.isBlank) j = .miss i e k) ∧
          as = [] ∧ c' = c ∧ j' = j ∨
        ∃ b c₁ j₁, continues (c.skipWhile Text.isBlank) j = .ok b c₁ j₁ ∧
          (c.skipWhile Text.isBlank).remaining < n ∧
          block item continues (owed - 1) (c.skipWhile Text.isBlank) j₁ = .ok as c' j') := by
  rw [resume] at h
  dsimp only at h
  split at h
  · cases h
    exact .inl ⟨‹_›, rfl, rfl, rfl⟩
  · refine .inr ⟨‹_›, ?_⟩
    split at h
    · split at h
      · exact .inr ⟨_, _, _, ‹_›, ‹_›, h⟩
      · cases h
    · split at h <;> cases h
      exact .inl ⟨⟨_, _, _, ‹_›⟩, rfl, rfl, rfl⟩
    · cases h

end

/-- The parser answers only where something is ahead. -/
def Fed {σ : Type} (p : Parser σ α) : Prop :=
  ∀ ⦃c j a c' j'⦄, p c j = .ok a c' j' → c.rest ≠ []

namespace Fed

variable {σ : Type} {p : Parser σ α}

/-- What fails at the end of the source needs something ahead. -/
theorem of_starved (h : Starved p) : Fed p := fun c j a c' j' hr hrest => by
  obtain ⟨i, e, k, hmiss⟩ := h j hrest
  rw [hmiss] at hr
  cases hr

/-- What starts with a rule that needs something ahead does so. -/
theorem bind {f : α → Parser σ β} (hp : Fed p) : Fed (p >>= f) := fun c j b c' j' hr => by
  obtain ⟨a, c₁, j₁, hfirst, -⟩ := of_bind_eq_ok hr
  exact hp hfirst

/-- At the end of the source nothing is taken before. -/
theorem after {q : Parser σ β} {f : β → Parser σ α}
    (hq : ∀ ⦃c j b c' j'⦄, q c j = .ok b c' j' → c.rest = [] → c'.rest = [])
    (hf : ∀ b, Fed (f b)) : Fed (q >>= f) := fun c j a c' j' hr hrest => by
  obtain ⟨b, c₁, j₁, hfirst, hr⟩ := of_bind_eq_ok hr
  exact hf b hr (hq hfirst hrest)

/-- A rule that needs something ahead does so at its own column. -/
theorem atOwnIndent (hp : Fed p) : Fed (Parser.atOwnIndent p) := fun c j a c' j' hr => by
  obtain ⟨c₁, hown, -⟩ := of_atOwnIndent_eq_ok hr
  exact show (c.withReference c.here).rest ≠ [] from hp hown

/-- A block of items that need something ahead does so. -/
theorem block {continues : Parser σ β} {owed : Nat} (hp : Fed p) :
    Fed (Parser.block p continues owed) := fun c j as c' j' hr => by
  obtain ⟨a, c₁, j₁, as', hfirst, -⟩ := block_eq_ok hr
  exact hp.bind hfirst

end Fed

/-- Nothing is open. -/
def Never (_ : α) : Prop := False

/-- A reply that is like an answer is one, with as many ids claimed, or it cannot be compared. -/
theorem alike_ok {base : List String} {Q : Cursor → Cursor → Prop} {a : α} {c' : Cursor}
    {f g f' : Facts} {r : Reply Facts α}
    (h : (Reply.ok a c' f').Alike (Facts.Idle f.declared g.declared) Q r)
    (hids : g.ids = base ++ f.ids) :
    r.Endless ∨ ∃ d' g', r = .ok a d' g' ∧ Q c' d' ∧ g'.ids = base ++ f'.ids := by
  cases h with
  | @ok _ _ d' _ g' hQ hJ =>
    have hf : f'.ids = f.ids := congrArg (List.map Found.item) hJ.1
    have hg : g'.ids = g.ids := congrArg (List.map Found.item) hJ.2
    exact .inr ⟨d', g', rfl, hQ, by rw [hf, hg, hids]⟩
  | endlessRight => exact .inl ⟨_, _, rfl⟩

namespace Follows

variable {base : List String} {P P' Q R : Cursor → Cursor → Prop} {p : Rule α} {q : Rule β}
  {V V' : α → β → Prop} {W : α' → β' → Prop} {Open : α → Prop} {Open' : α' → Prop}

/-- What follows may be known to be less near. -/
theorem mono (h : Follows base P p q V Q Open) (hV : ∀ a b, V a b → V' a b)
    (hQ : ∀ c d, Q c d → R c d) : Follows base P p q V' R Open := by
  intro c d f g a c' f' hP hids hr hbase
  refine (h hP hids hr hbase).imp_right (·.imp_right ?_)
  rintro ⟨b, d', g', hd, hab, hcd, hids'⟩
  exact ⟨b, d', g', hd, hV _ _ hab, hQ _ _ hcd, hids'⟩

/-- What follows may start at fewer places. -/
theorem pre (h : Follows base P p q V Q Open) (hP : ∀ c d, P' c d → P c d) :
    Follows base P' p q V Q Open :=
  fun _ _ _ _ _ _ _ hP' => h (hP _ _ hP')

/-- More may be open. -/
theorem opens {Open' : α → Prop} (h : Follows base P p q V Q Open)
    (hopen : ∀ a, Open a → Open' a) : Follows base P p q V Q Open' :=
  fun _ _ _ _ _ _ _ hP hids hr hbase => (h hP hids hr hbase).imp_left (·.imp_right (hopen _))

/-- If nothing is left open, nothing of a kind is. -/
theorem closed (h : Follows base P p q V Q Never) : Follows base P p q V Q Open :=
  h.opens fun _ hopen => hopen.elim

/-- Related answers follow each other. -/
theorem pure {a : α} {b : β} (h : V a b) :
    Follows base P (Pure.pure a) (Pure.pure b) V P Open := by
  rintro c d f g _ _ _ hP hids ⟨⟩ _
  exact .inr (.inr ⟨b, d, g, rfl, h, hP, hids⟩)

/-- What is open at the end of the source stays so. -/
theorem bind {f : α → Rule α'} {g : β → Rule β'} (hp : Follows base P p q V R Open)
    (hclaims : ∀ a, Claims (f a)) (hf : ∀ a b, V a b → Follows base R (f a) (g b) W Q Open')
    (hopen : ∀ ⦃a c k b c' k'⦄, Open a → c.rest = [] → f a c k = .ok b c' k' →
      c'.rest = [] ∧ Open' b) :
    Follows base P (p >>= f) (q >>= g) W Q Open' := by
  intro c d k l b c' k' hP hids hr hbase
  obtain ⟨a, c₁, k₁, hfirst, hr⟩ := of_bind_eq_ok hr
  have hbase₁ : ∀ id ∈ k₁.ids, id ∉ base := fun id hid => hbase id ((hclaims a).subset hr hid)
  obtain ⟨hend, ha⟩ | ⟨i, l', hd⟩ | ⟨b₁, d₁, l₁, hd, hV, hR, hids₁⟩ := hp hP hids hfirst hbase₁
  · exact .inl (hopen ha hend hr)
  · exact .inr (.inl ⟨i, l', by rw [bind_apply, hd]; rfl⟩)
  · rw [bind_apply, hd]
    exact hf a b₁ hV hR hids₁ hr hbase

/-- The rule need only be followed where it answers. -/
theorem answered (hp : Follows base P' p q V Q Open)
    (h : ∀ ⦃c d f a c' f'⦄, P c d → p c f = .ok a c' f' → P' c d) :
    Follows base P p q V Q Open :=
  fun _ _ _ _ _ _ _ hcd hids hr => hp (h hcd hr) hids hr

/-- At the end of the source it need not be followed. -/
theorem fed (hp : Follows base P' p q V Q Open) (h : Fed p)
    (hP : ∀ c d, P c d → c.rest ≠ [] → P' c d) : Follows base P p q V Q Open :=
  hp.answered fun _ _ _ _ _ _ hcd hr => hP _ _ hcd (h hr)

/-- First come rules that agree in what is looked at of their answers, and leave the claims as
    they are. -/
theorem afterView {γ : Type} {φ : α → γ} {ψ : β → γ} {f : α → Rule α'} {g : β → Rule β'}
    (h : ∀ k l : Facts, Agree (Facts.Idle k.declared l.declared) P (φ <$> p) (ψ <$> q) R)
    (hf : ∀ a b, φ a = ψ b → Follows base R (f a) (g b) W Q Open') :
    Follows base P (p >>= f) (q >>= g) W Q Open' := by
  intro c d k l b c' k' hP hids hr hbase
  obtain ⟨a, c₁, k₁, hfirst, hr⟩ := of_bind_eq_ok hr
  have h := h k l hP ⟨rfl, rfl⟩
  change ((p c k).map φ).Alike _ R ((q d l).map ψ) at h
  rw [hfirst] at h
  rw [bind_apply]
  obtain ⟨i, l', hd⟩ | ⟨d₁, l₁, hd, hR, hids₁⟩ := alike_ok h hids
  · cases hq : q d l with
    | ok => rw [hq] at hd; cases hd
    | miss => rw [hq] at hd; cases hd
    | fatal => rw [hq] at hd; cases hd; exact .inr (.inl ⟨_, _, rfl⟩)
  · cases hq : q d l with
    | ok b₁ d₂ l₂ =>
      rw [hq, Reply.map, Reply.ok.injEq] at hd
      obtain ⟨hab, rfl, rfl⟩ := hd
      exact hf a b₁ hab.symm hR hids₁ hr hbase
    | miss => rw [hq] at hd; cases hd
    | fatal => rw [hq] at hd; cases hd

/-- Rules follow each other behind rules of which the answers do not matter. -/
theorem afterAny {f : α → Rule α'} {g : β → Rule β'}
    (h : ∀ k l : Facts, Agree (Facts.Idle k.declared l.declared) P (Functor.discard p)
      (Functor.discard q) R) (hf : ∀ a b, Follows base R (f a) (g b) W Q Open') :
    Follows base P (p >>= f) (q >>= g) W Q Open' :=
  afterView h fun a b _ => hf a b

/-- Rules follow each other behind rules with one answer. -/
theorem after {p q : Rule α} {f : α → Rule α'} {g : α → Rule β'}
    (h : ∀ k l : Facts, Agree (Facts.Idle k.declared l.declared) P p q R)
    (hf : ∀ a, Follows base R (f a) (g a) W Q Open') :
    Follows base P (p >>= f) (q >>= g) W Q Open' := by
  have hid : ∀ k l : Facts, Agree (Facts.Idle k.declared l.declared) P (id <$> p) (id <$> q) R := by
    rwa [id_map, id_map]
  refine afterView hid ?_
  rintro a _ rfl
  exact hf a

/-- Rules that agree, and leave the claims as they are. -/
theorem of_agree {p q : Rule α}
    (h : ∀ k l : Facts, Agree (Facts.Idle k.declared l.declared) P p q Q) :
    Follows base P p q Eq Q Open := by
  have hpure : Follows base P (p >>= Pure.pure) (q >>= Pure.pure) Eq Q Open :=
    after h fun _ => .pure rfl
  rwa [bind_pure, bind_pure] at hpure

/-- Where nothing is open between the two. -/
theorem andThen {f : α → Rule α'} {g : β → Rule β'} (hp : Follows base P p q V R Never)
    (hclaims : ∀ a, Claims (f a)) (hf : ∀ a b, V a b → Follows base R (f a) (g b) W Q Open') :
    Follows base P (p >>= f) (q >>= g) W Q Open' :=
  hp.bind hclaims hf nofun

/-- Mapping both answers keeps what follows, if what is open stays so. -/
theorem map {f : α → α'} {g : β → β'} (hp : Follows base P p q V Q Open)
    (hV : ∀ a b, V a b → W (f a) (g b)) (hopen : ∀ a, Open a → Open' (f a)) :
    Follows base P (f <$> p) (g <$> q) W Q Open' := by
  refine hp.bind (fun _ _ => .pure fun _ h => h) (fun a b hab => .pure (hV a b hab)) ?_
  rintro a c k _ _ _ ha hend ⟨⟩
  exact ⟨hend, hopen a ha⟩

/-- The second of two alternatives may be followed where the first is missing as well. -/
theorem orElse {p' : Rule α} {q' : Rule β} (hp : Follows base P p q V Q Open)
    (hp' : Follows base P p' q' V Q Open)
    (hmiss : ∀ ⦃c d f g i e f' a c' f''⦄, P c d → p c f = .miss i e f' → p' c f = .ok a c' f'' →
      (q d g).Endless ∨ ∃ i e g', q d g = .miss i e g') :
    Follows base P (p <|> p') (q <|> q') V Q Open := by
  intro c d f g a c' f' hP hids hr hbase
  change Parser.orElse p p' c f = _ at hr
  change _ ∨ (Parser.orElse q q' d g).Endless ∨ ∃ b d' g', Parser.orElse q q' d g = _ ∧ _
  rw [Parser.orElse] at hr
  cases hfirst : p c f with
  | ok a₁ c₁ f₁ =>
    rw [hfirst] at hr
    cases hr
    obtain hopen | ⟨i, g', hd⟩ | ⟨b, d', g', hd, h⟩ := hp hP hids hfirst hbase
    · exact .inl hopen
    · exact .inr (.inl ⟨i, g', by rw [Parser.orElse, hd]⟩)
    · exact .inr (.inr ⟨b, d', g', by rw [Parser.orElse, hd], h⟩)
  | miss i e f₁ =>
    rw [hfirst] at hr
    cases hsecond : p' c f with
    | ok a₂ c₂ f₂ =>
      rw [hsecond] at hr
      cases hr
      obtain ⟨i, g', hd⟩ | ⟨i, e, g', hd⟩ := hmiss (g := g) hP hfirst hsecond
      · exact .inr (.inl ⟨i, g', by rw [Parser.orElse, hd]⟩)
      obtain hopen | ⟨i, g', hd'⟩ | ⟨b, d', g', hd', h⟩ := hp' hP hids hsecond hbase
      · exact .inl hopen
      · exact .inr (.inl ⟨i, g', by rw [Parser.orElse, hd, hd']⟩)
      · exact .inr (.inr ⟨b, d', g', by rw [Parser.orElse, hd, hd'], h⟩)
    | miss _ _ _ => rw [hsecond] at hr; cases hr
    | fatal _ _ _ => rw [hsecond] at hr; cases hr
  | fatal _ _ _ => rw [hfirst] at hr; cases hr

/-- Alternatives may be told from what is read behind them. -/
theorem orElse_seqLeft {p' : Rule α} {q' : Rule β} {e : Rule α'} {e' : Rule β'}
    (hp : Follows base P (p <* e) (q <* e') V Q Open)
    (hp' : Follows base P (p' <* e) (q' <* e') V Q Open)
    (hmiss : ∀ ⦃c d f g a c' f'⦄, P c d → Misses p c f → (p' <* e) c f = .ok a c' f' →
      (q d g).Endless ∨ Misses q d g) :
    Follows base P ((p <|> p') <* e) ((q <|> q') <* e') V Q Open := by
  intro c d f g a c' f' hP hids hr hbase
  obtain ⟨a₁, c₁, f₁, hfirst, hend⟩ := of_bind_eq_ok hr
  -- What answers, or cannot be compared, does not miss.
  have hnot {q : Rule β} {Z : β → Cursor → Facts → Prop} (h : ((q <* e') d g).Endless ∨
      ∃ b d' g', (q <* e') d g = .ok b d' g' ∧ Z b d' g') : ¬Misses q d g := by
    intro hq
    obtain ⟨i, x, k, hq⟩ : Misses (q <* e') d g := hq.bind _
    obtain ⟨_, _, hend⟩ | ⟨_, _, _, hok, -⟩ := h
    · rw [hq] at hend
      cases hend
    · rw [hq] at hok
      cases hok
  obtain hok | ⟨hmissed, hok⟩ := of_orElse_eq_ok hfirst
  · have hboth : (p <* e) c f = .ok a c' f' := (bind_eq hok).trans hend
    refine (hp hP hids hboth hbase).imp_right fun h => ?_
    have hsame : ((q <|> q') <* e') d g = (q <* e') d g :=
      congrArg (Reply.bind · _) (orElse_of_not_misses (hnot h))
    rwa [hsame]
  · have hboth : (p' <* e) c f = .ok a c' f' := (bind_eq hok).trans hend
    obtain ⟨i, k, hq⟩ | hq := hmiss (g := g) hP hmissed hboth
    · exact .inr (.inl ⟨i, k, by
        change (Parser.orElse q q' d g).bind _ = _
        rw [Parser.orElse, hq]
        rfl⟩)
    refine (hp' hP hids hboth hbase).imp_right fun h => ?_
    have hsame : ((q <|> q') <* e') d g = (q' <* e') d g :=
      congrArg (Reply.bind · _) (hq.orElse_of_not_misses (hnot h))
    rwa [hsame]

/-- The id of a block is claimed. -/
theorem declare {i i' : Nat} {id : String} :
    Follows base P (Rule.declare i id) (Rule.declare i' id) (fun _ _ => True) P Never := by
  intro c d f g a c' f' hP hids hr hbase
  rw [Rule.declare] at hr ⊢
  split at hr <;> cases hr
  rename_i hnew
  have hid : id ∉ base := hbase id (by simp)
  have hnew' : ¬g.isDeclared id := by
    rw [Facts.isDeclared_iff, hids, List.mem_append]
    exact fun h => h.elim hid (fun h => hnew (Facts.isDeclared_iff.2 h))
  rw [if_neg hnew']
  refine .inr (.inr ⟨(), d, _, rfl, trivial, hP, ?_⟩)
  rw [Facts.ids_declare, Facts.ids_declare, hids, List.append_assoc]

/-- The id is claimed where no id is, or the first rule stops. -/
theorem declareNew {i i' : Nat} {id : String} {stop stop' : Rule Unit}
    (hstop : ∀ c f a c' f', stop c f ≠ .ok a c' f') (hclaims : Claims p)
    (hp : Follows base P p q V Q Open) :
    Follows base P (do
        if (← journal).isDeclared id then stop
        Rule.declare i id
        p) (do
        if (← journal).isDeclared id then stop'
        Rule.declare i' id
        q) V Q Open := by
  intro c d f g a c' f' hP hids hr hbase
  have hname : Follows base P (Rule.declare i id >>= fun _ => p) (Rule.declare i' id >>= fun _ => q)
      V Q Open := declare.andThen (fun _ => hclaims) fun _ _ _ => hp
  obtain ⟨known, _, _, hknown, hr⟩ := of_bind_eq_ok hr
  cases hknown
  dsimp only at hr
  split at hr
  · obtain ⟨_, _, _, hr, -⟩ := of_bind_eq_ok hr
    exact absurd hr (hstop _ _ _ _ _)
  · have hd : ¬g.isDeclared id := by
      -- The id is claimed after all, so it is not one of those from before.
      obtain ⟨_, c₁, f₁, hdeclare, hr⟩ := of_bind_eq_ok hr
      rw [Rule.declare] at hdeclare
      split at hdeclare <;> cases hdeclare
      rename_i hnew
      have hid : id ∉ base := hbase id (hclaims.subset hr (by simp))
      rw [Facts.isDeclared_iff, hids, List.mem_append]
      exact fun h => h.elim hid fun h => hnew (Facts.isDeclared_iff.2 h)
    have hsame : (do
        if (← journal).isDeclared id then stop'
        Rule.declare i' id
        q : Rule β) d g = (Rule.declare i' id >>= fun _ => q) d g := by
      change (if g.isDeclared id then _ else _ : Rule β) d g = _
      rw [if_neg hd]
    rw [hsame]
    exact hname hP hids hr hbase

/-- Rules follow each other at their own columns too. -/
theorem atOwnIndent (hp : Follows base P' p q V R Open)
    (hP : ∀ c d, P c d → P' (c.withReference c.here) (d.withReference d.here))
    (hQ : ∀ c d c' d', P c d → R c' d' →
      Q (c'.withReference c.reference) (d'.withReference d.reference)) :
    Follows base P (Parser.atOwnIndent p) (Parser.atOwnIndent q) V Q Open := by
  intro c d f g a c' f' hcd hids hr hbase
  obtain ⟨c₁, hown, rfl⟩ := of_atOwnIndent_eq_ok hr
  rw [Parser.atOwnIndent]
  obtain ⟨hend, ha⟩ | ⟨i, g', hd⟩ | ⟨b, d', g', hd, hV, hR, hids'⟩ :=
    hp (hP c d hcd) hids hown hbase
  · exact .inl ⟨hend, ha⟩
  · exact .inr (.inl ⟨i, g', by rw [hd]⟩)
  · exact .inr (.inr ⟨b, _, g', by rw [hd], hV, hQ _ _ _ _ hcd hR, hids'⟩)

section

variable {γ : Type} {φ : α → γ} {ψ : β → γ} {continues continues' : Rule α'} {owed : Nat}
  {N : Cursor → Cursor → Prop}

/-- Behind a line `Q` holds. Where nothing is ahead there, and nothing open, the second block may
    still go on. -/
theorem resume (howed : owed ≤ 1) (hclaims : Claims p) (hsilent : Silent continues)
    (hitem : Follows base P (p <* lineEnd) (q <* lineEnd) (fun a b => φ a = ψ b) Q Open)
    (hnext : ∀ c d, Q c d → ¬c.atEnd → ¬d.atEnd ∧
      N (c.skipWhile Text.isBlank) (d.skipWhile Text.isBlank))
    (hcont : ∀ f g : Facts, Agree (Facts.Idle f.declared g.declared)
      N continues continues' fun _ _ => True)
    (hN : ∀ c d, N c d → P c d) {c d : Cursor} {f g : Facts} {as : List α} {c' : Cursor}
    {f' : Facts} (hP : P c d) (hids : g.ids = base ++ f.ids)
    (hr : Parser.block p continues owed c f = .ok as c' f') (hbase : ∀ id ∈ f'.ids, id ∉ base) :
    c'.rest = [] ∧ (∃ a ∈ as.getLast?, Open a) ∨ (Parser.block q continues' owed d g).Endless ∨
      ∃ bs d₁ g₁ k n, as.map φ = bs.map ψ ∧ Q c' d₁ ∧ g₁.ids = base ++ f'.ids ∧ k ≤ 1 ∧
        Parser.block q continues' owed d g =
          (Parser.resume q continues' k n d₁ g₁).map (bs ++ ·) ∧
        (c'.atEnd ∨ Parser.resume q continues' k n d₁ g₁ = .ok [] d₁ g₁ ∨
          (Parser.resume q continues' k n d₁ g₁).Endless) := by
  induction hn : c.remaining using Nat.strongRecOn generalizing owed c d f g as with
  | ind n ih =>
    subst hn
    obtain ⟨a, c₁, f₁, as, hfirst, hrest, rfl⟩ := block_eq_ok hr
    rw [block_eq, bind_apply]
    have hrest' := resume_eq_ok hrest
    have hsub : f₁.ids ⊆ f'.ids := by
      obtain ⟨-, -, -, rfl⟩ | ⟨-, ⟨-, -, -, rfl⟩ | ⟨_, _, _, hok, -, hmore⟩⟩ := hrest'
      · exact fun _ h => h
      · exact fun _ h => h
      · exact fun _ h =>
          (hclaims.block hsilent _).subset hmore ((Claims.of_silent hsilent).subset hok h)
    obtain ⟨hend, ha⟩ | ⟨i, g', hd⟩ | ⟨b, d₁, g₁, hd, hab, hQ, hids₁⟩ :=
      hitem hP hids hfirst fun id hid => hbase id (hsub hid)
    · -- Nothing follows what is open.
      have hend' : c₁.atEnd := by rw [Cursor.atEnd, hend]; rfl
      obtain ⟨-, rfl, rfl, rfl⟩ | ⟨hmore, -⟩ := hrest'
      · exact .inl ⟨hend, a, rfl, ha⟩
      · exact absurd hend' hmore
    · exact .inr (.inl ⟨i, g', by rw [hd]; rfl⟩)
    · rw [hd]
      change _ ∨ ((Parser.resume q continues' owed d.remaining d₁ g₁).map (b :: ·)).Endless ∨
        ∃ bs d₂ g₂ k n, _ ∧ _ ∧ _ ∧ _ ∧
          (Parser.resume q continues' owed d.remaining d₁ g₁).map (b :: ·) = _ ∧ _
      obtain ⟨hend, rfl, rfl, rfl⟩ | ⟨hmore, hrest'⟩ := hrest'
      · exact .inr (.inr ⟨[b], d₁, g₁, owed, d.remaining, congrArg (fun x => [x]) hab, hQ, hids₁,
          howed, rfl, .inl hend⟩)
      obtain ⟨hmore', hN'⟩ := hnext _ _ hQ hmore
      have h := hcont f₁ g₁ hN' ⟨rfl, rfl⟩
      obtain ⟨⟨_, _, _, hmiss⟩, rfl, rfl, rfl⟩ | ⟨_, _, f₂, hok, hless, hblock⟩ := hrest'
      · refine .inr (.inr ⟨[b], d₁, g₁, owed, d.remaining, congrArg (fun x => [x]) hab, hQ, hids₁,
          howed, rfl, .inr ?_⟩)
        rw [hmiss] at h
        rw [Parser.resume, if_neg hmore']
        dsimp only
        generalize continues' _ g₁ = r at h ⊢
        cases h with
        | miss => exact .inl (if_pos howed)
        | endlessRight => exact .inr ⟨_, _, rfl⟩
      · rw [hok] at h
        rw [Parser.resume, if_neg hmore']
        dsimp only
        generalize continues' _ g₁ = r at h ⊢
        cases h with
        | @ok _ _ _ _ g₂ _ hJ =>
          have hids₂ : g₂.ids = base ++ f₂.ids := (congrArg (List.map Found.item) hJ.2).trans <|
            hids₁.trans (congrArg (base ++ List.map Found.item ·) hJ.1.symm)
          dsimp only
          by_cases hless' : (d₁.skipWhile Text.isBlank).remaining < d.remaining
          · rw [if_pos hless']
            obtain ⟨hend, x, hx, hopen⟩ | ⟨i, g', hd⟩ | ⟨bs, d', g', k, n, habs, hQ', hids', hk, hd,
                htail⟩ := ih _ hless (by omega) (hN _ _ hN') hids₂ hblock rfl
            · refine .inl ⟨hend, x, ?_, hopen⟩
              rw [List.getLast?_cons, Option.mem_def.1 hx]
              rfl
            · exact .inr (.inl ⟨i, g', by rw [hd]; rfl⟩)
            · refine .inr (.inr ⟨b :: bs, d', g', k, n, ?_, hQ', hids', hk, ?_, htail⟩)
              · rw [List.map_cons, List.map_cons, hab, habs]
              · rw [hd]
                generalize Parser.resume q continues' k n d' g' = r
                cases r <;> rfl
          · rw [if_neg hless']
            exact .inr (.inl ⟨_, _, rfl⟩)
        | endlessRight => exact .inr (.inl ⟨_, _, rfl⟩)

/-- If nothing is ahead behind the first block, the second one stops as well, at the end of its
    source or because the line ahead is no part of it. -/
theorem block (howed : owed ≤ 1) (hclaims : Claims p) (hsilent : Silent continues)
    (hitem : Follows base P (p <* lineEnd) (q <* lineEnd) (fun a b => φ a = ψ b) Q Open)
    (hstop : ∀ c d, Q c d → c.atEnd → d.atEnd ∨
      ∀ g, ∃ i e g', continues' (d.skipWhile Text.isBlank) g = .miss i e g')
    (hnext : ∀ c d, Q c d → ¬c.atEnd → ¬d.atEnd ∧
      N (c.skipWhile Text.isBlank) (d.skipWhile Text.isBlank))
    (hcont : ∀ f g : Facts, Agree (Facts.Idle f.declared g.declared)
      N continues continues' fun _ _ => True)
    (hN : ∀ c d, N c d → P c d) :
    Follows base P (Parser.block p continues owed) (Parser.block q continues' owed)
      (fun as bs => as.map φ = bs.map ψ) Q fun as => ∃ a ∈ as.getLast?, Open a := by
  intro c d f g as c' f' hP hids hr hbase
  refine (resume howed hclaims hsilent hitem hnext hcont hN hP hids hr hbase).imp_right
    (·.elim .inl ?_)
  rintro ⟨bs, d₁, g₁, k, n, has, hQ, hids', hk, hd, htail⟩
  obtain hend | htail | ⟨i, g', htail⟩ := htail
  · refine .inr ⟨bs, d₁, g₁, ?_, has, hQ, hids'⟩
    rw [hd, Parser.resume]
    by_cases hend' : d₁.atEnd
    · rw [if_pos hend', Reply.map, List.append_nil]
    · obtain ⟨i, e, g', hmiss⟩ := (hstop _ _ hQ hend).resolve_left hend' g₁
      rw [if_neg hend']
      dsimp only
      rw [hmiss]
      dsimp only
      rw [if_pos hk, Reply.map, List.append_nil]
  · exact .inr ⟨bs, d₁, g₁, by rw [hd, htail, Reply.map, List.append_nil], has, hQ, hids'⟩
  · exact .inl ⟨i, g', by rw [hd, htail]; rfl⟩

end

end Follows

end Parser

end Dialogue
