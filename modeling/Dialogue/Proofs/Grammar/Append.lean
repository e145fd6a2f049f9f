import Dialogue.Proofs.Grammar.Sequel

/-!
# A source before another one

The lines of a source are followed where the source goes on, and behind the last one the other
source starts, which is read as it is alone. So the two together say what the one says and then
what the other one says (`source_append`).
-/

namespace Dialogue

open Dialogue.Parser

namespace Cursor

variable {c d : Cursor} {s : List Char}

/-- What is ahead of the first thing is behind the white space. -/
theorem rest_first (c : Cursor) : c.first.rest = c.rest.dropWhile Text.isSpace :=
  c.rest_skipWhile Text.isSpace

/-- The white space before the first thing is behind it. -/
theorem before_first (c : Cursor) :
    c.first.before = (c.rest.takeWhile Text.isSpace).reverse ++ c.before :=
  c.before_skipWhile Text.isSpace

/-- The source is the same at its first thing. -/
theorem source_first (c : Cursor) : c.first.source = c.source := source_skip _ c

/-- The same place in a source that stands behind another one. -/
theorem Shifted.of_source (hrest : d.rest = c.rest) (hsource : d.source = s ++ c.source)
    (hs : ∀ x ∈ s.getLast?, Text.isBreak x) (htab : d.tabSize = c.tabSize) : c.Shifted d := by
  refine ⟨hrest, ⟨s.reverse, ?_, fun x hx => hs x (by rwa [List.head?_reverse] at hx)⟩, htab⟩
  rw [Cursor.source, Cursor.source, hrest, ← List.append_assoc] at hsource
  rw [← List.reverse_inj, List.append_cancel_right hsource, List.reverse_append,
    List.reverse_reverse]

/-- The first line of a source is not indented. -/
theorem column_first (h : Layout.AtMargin s) (husual : Layout.Usual s) {tabSize : Nat}
    (hne : (ofChars s tabSize).first.rest ≠ []) : (ofChars s tabSize).first.column = 1 := by
  have hrest : (ofChars s tabSize).first.rest = s.dropWhile Text.isSpace := rest_first _
  have hbefore : (ofChars s tabSize).first.before = (s.takeWhile Text.isSpace).reverse :=
    (before_first _).trans (List.append_nil _)
  have hsplit := List.takeWhile_append_dropWhile (p := Text.isSpace) (l := s)
  cases hdrop : s.dropWhile Text.isSpace with
  | nil => exact absurd (hrest.trans hdrop) hne
  | cons x xs =>
    have hx : Text.isLayout x = false := by
      rw [husual.dropWhile] at hdrop
      exact head_dropWhile x (by rw [hdrop]; rfl)
    have hspaces : ∀ y ∈ s.takeWhile Text.isSpace, Text.isLayout y := fun y hy =>
      husual y ((List.takeWhile_prefix _).mem hy) (List.all_eq_true.1 List.all_takeWhile y hy)
    rw [hdrop] at hsplit
    have hbreak := h _ x xs hsplit.symm hspaces hx
    refine column_of_atLineStart ?_ (hrest.trans hdrop) (Bool.or_eq_false_iff.1 hx).1
    rw [atLineStart, hbefore, List.head?_reverse]
    cases hlast : (s.takeWhile Text.isSpace).getLast? with
    | none => rfl
    | some y => exact hbreak y hlast

end Cursor

namespace Grammar

variable {registry : Registry} {s t : List Char} {k : Nat} {c₁ d₁ : Cursor} {f₁ f₂ g₁ : Facts}
  {o₁ o₂ : Outline} {lines : List Outline}

/-- A source with an outline, that another one may follow. -/
structure Endable (source : List Char) (o : Outline) : Prop where
  /-- White space is usual. -/
  usual : Layout.Usual source
  /-- The first line is not indented. -/
  atMargin : Layout.AtMargin source
  /-- The last line ends with a line break. -/
  ended : ∃ x ∈ source.getLast?, Text.isBreak x
  /-- It does not end before anything is said. -/
  said : ¬o.EndsIn (Node.Dangling source)

/-- The lines of a source are read from its start. -/
theorem sourceLines_ahead {c : Cursor} {f : Facts}
    (h : sourceLines registry c c.first f = .ok lines c₁ f₁) : c.Ahead c₁ := by
  have hfirst : c.Ahead c.first := (Cursor.ahead_skip _ c).withReference _
  have hlines : Walks Reason.Ends c (Cursor.Below (c.remaining + 1)) (sourceLines registry c)
      fun _ _ => True := by
    refine (walks_block (A := fun _ => True) 0 (fun m hm => ?_) keeps_same).mono
      fun _ _ _ => trivial
    exact (walks_line ((stay_upTo _).anti hm)).mono fun _ _ hc => ⟨trivial, hc⟩
  have hwalked := hlines f hfirst (Nat.lt_succ_of_le (c.remaining_skip_le _))
  exact hfirst.trans (hwalked.of_ok h).1

/-- The lines of a source are read alike where another one follows, and then what comes next. -/
theorem sourceLines_append (h : Endable s (Outline.concat lines))
    (hplus : ∀ c, Starts s c → ¬PausesPlus registry c) (hmore : Layout.AtMargin t)
    (hne : (Cursor.ofChars s k).first.rest ≠ [])
    (hlines : sourceLines registry (.ofChars s k) (Cursor.ofChars s k).first .empty =
      .ok lines c₁ f₁)
    (hend : (c₁.skipWhile Text.isSpace).rest = []) :
    ∃ d₁ g₁ owed n, c₁.Passed t d₁ ∧ d₁.reference.column = 1 ∧ g₁.ids = f₁.ids ∧ owed ≤ 1 ∧
      sourceLines registry (.ofChars (s ++ t) k) (Cursor.ofChars (s ++ t) k).first .empty =
        (resume (line registry (.upTo registry (Cursor.ofChars (s ++ t) k).remaining)) same owed n
          d₁ g₁).map (lines ++ ·) := by
  have hS := inStep_extend hmore s
  let C := Cursor.ofChars s k
  let D := Cursor.ofChars (s ++ t) k
  have hCD : C.Extended t D := ⟨rfl, rfl, rfl, h.ended, h.usual⟩
  have hskip := hCD.skipWhile (p := Text.isSpace) hne
  have hcolumn : C.first.column = 1 := Cursor.column_first h.atMargin h.usual hne
  have hheads : Heads (Extend Region.Shuts s t) (Starts s) 1 C.first D.first := by
    refine ⟨⟨hskip.withReference _ _, C.source_first, hcolumn, ?_, fun h => absurd rfl h⟩,
      C.source_first, ?_⟩
    · exact hskip.column_eq.symm.trans hcolumn
    · exact Cursor.Leads.skipWhile (leads_of_behind rfl) fun _ h => h
  have hDne : D.first.rest ≠ [] := fun hnil => hne (((hS.aligned 1).nil hheads.1).2 hnil)
  have hitem : Follows [] (Heads (Extend Region.Shuts s t) (Starts s) 1)
      (line registry (.upTo registry C.remaining) <* lineEnd)
      (line registry (.upTo registry D.remaining) <* lineEnd) Eq (ExtendLine s t 1)
      (Outline.EndsIn (Node.Dangling s)) :=
    follows_sequel hmore hplus Nat.zero_lt_one <|
      follow_upTo hS (fun hm hin => follows_sequel hmore hplus hm hin) _ _
  obtain ⟨-, hopen⟩ | hendless | ⟨bs, d₁, g₁, owed, n, has, hL, hids, howed, hd, -⟩ :=
    Follows.resume (φ := id) (ψ := id) (N := fun c d => Heads (Extend Region.Shuts s t) (Starts s)
      1 c d ∧ c.rest ≠ []) (Nat.zero_le 1) (claims_line (claim_upTo _)) silent_same hitem
      (fun _ _ => heads_next hS) (fun _ _ => agree_same hS) (fun _ _ h => h.1) hheads
      (g := .empty) rfl hlines fun _ _ => List.not_mem_nil
  · exact absurd (.concat hopen) h.said
  · exact absurd hendless (sourceLines_ends registry hDne .empty)
  · rw [List.map_id, List.map_id] at has
    subst has
    refine ⟨d₁, g₁, owed, n, ?_, hL.reference', hids, howed, hd⟩
    -- Of the first source nothing is left but white space, and that lies behind already.
    refine hL.place.resolve_left fun ⟨hext, hfull⟩ => hfull ?_
    rw [← hext.usual.dropWhile, ← Cursor.rest_skipWhile]
    exact hend

/-- What comes next are the lines of the other source. -/
theorem resume_source (n n' : Nat) {owed : Nat} (howed : owed ≤ 1) (husual : Layout.Usual t)
    (hmore : Layout.AtMargin t) (hbreak : ∀ x ∈ s.getLast?, Text.isBreak x)
    (hpass : c₁.Passed t d₁) (hahead : (Cursor.ofChars s k).Ahead c₁)
    (href : d₁.reference.column = 1) {c₂ : Cursor}
    (h : source registry (.ofChars t k) .empty = .ok o₂ c₂ f₂)
    (hnew : ∀ id ∈ f₂.ids, id ∉ g₁.ids) :
    (resume (line registry (.upTo registry n')) same owed n d₁ g₁).Endless ∨
      ∃ lines d₂ g₂, resume (line registry (.upTo registry n')) same owed n d₁ g₁ =
        .ok lines d₂ g₂ ∧ (d₂.skipWhile Text.isSpace).rest = [] ∧ o₂ = Outline.concat lines := by
  let T := Cursor.ofChars t k
  have hT : T.first.rest = t.dropWhile Text.isLayout := T.rest_first.trans husual.dropWhile
  have hnext : (d₁.skipWhile Text.isBlank).rest = T.first.rest := by
    have hrest := (rest_skip_blankLength T).1
    rw [hT, Cursor.rest_skipWhile, hpass.rest]
    rwa [Cursor.rest_skipWhile, Cursor.rest_skip] at hrest
  rw [resume]
  -- At the end of both sources the other one has no line.
  by_cases hend : d₁.atEnd
  · have hd : d₁.rest = [] := List.isEmpty_iff.1 hend
    have hnil : T.first.rest = [] := by
      rw [← hnext, Cursor.rest_skipWhile, hd]
      rfl
    rw [source_of_end hnil] at h
    cases h
    rw [if_pos hend]
    refine .inr ⟨[], d₁, g₁, rfl, ?_, rfl⟩
    rw [Cursor.rest_skipWhile, hd]
    rfl
  have hd : d₁.rest ≠ [] := fun hnil => hend (List.isEmpty_iff.2 hnil)
  have hTne : T.first.rest ≠ [] := by
    rw [hpass.rest] at hd
    rw [hT]
    exact (rest_skip_blankLength T).2 hd
  let next := d₁.skipWhile Text.isBlank
  have hcolumn : next.column = 1 := ((hpass.starts hmore).resolve_left hd).2
  have hsame : (same : Rule Nat) next g₁ = .ok next.column next g₁ :=
    if_pos (decide_eq_true (hcolumn.trans href.symm))
  have hnone : owed - 1 = 0 := Nat.sub_eq_zero_of_le howed
  rw [if_neg hend]
  dsimp only
  rw [hsame, hnone]
  dsimp only
  split
  · -- The lines of the other source are read as before, only from a place further down.
    obtain ⟨lines, c₃, hlines, hrest, rfl⟩ := source_eq_ok h hTne
    have hshift : shift 1 [] T.first next := by
      refine ⟨.of_source hnext ?_ hbreak (hpass.tabSize.trans hahead.tabSize),
        Cursor.column_first hmore husual hTne, href⟩
      have hsource : d₁.source = s ++ t := hpass.source.trans (congrArg (· ++ t) hahead.source_eq)
      rw [Cursor.source_first]
      exact (Cursor.ahead_skip _ d₁).source_eq.trans hsource
    have hfollow : Follows g₁.ids (shift 1 []) (sourceLines registry T)
        (block (line registry (.upTo registry n')) same 0) Eq (shiftLine 1) Never :=
      follows_levelled levelled_shift Nat.zero_lt_one
    obtain ⟨-, hopen⟩ | hendless | ⟨_, d₂, g₂, hok, rfl, hL, -⟩ :=
      hfollow hshift (g := g₁) (List.append_nil _).symm hlines hnew
    · exact hopen.elim
    · exact .inl hendless
    · refine .inr ⟨_, d₂, g₂, hok, ?_, rfl⟩
      rw [(hL.1.1.skipWhile _).rest]
      exact hrest
  · exact .inl ⟨_, _, rfl⟩

/-- A source before another one says what it says alone, and then what the other one says. -/
theorem source_append (h : Endable s o₁)
    (hplus : ∀ c, Starts s c → ¬PausesPlus registry c) (husual : Layout.Usual t)
    (hmore : Layout.AtMargin t) {c₁ c₂ : Cursor}
    (h₁ : source registry (.ofChars s k) .empty = .ok o₁ c₁ f₁)
    (h₂ : source registry (.ofChars t k) .empty = .ok o₂ c₂ f₂)
    (hnew : ∀ id ∈ f₂.ids, id ∉ f₁.ids) :
    ∃ c f, source registry (.ofChars (s ++ t) k) .empty = .ok (o₁ ++ o₂) c f := by
  let C := Cursor.ofChars s k
  let D := Cursor.ofChars (s ++ t) k
  let T := Cursor.ofChars t k
  obtain ⟨x, hx, hbreak⟩ := h.ended
  have hlast : ∀ y ∈ s.getLast?, Text.isBreak y := fun y hy => Option.mem_unique hx hy ▸ hbreak
  -- If the first source is only white space, the other one is read behind it.
  by_cases hne : C.first.rest = []
  · rw [source_of_end hne] at h₁
    cases h₁
    have hspaces : s.dropWhile Text.isSpace = [] := C.rest_first.symm.trans hne
    have hrest : D.first.rest = T.first.rest := by
      rw [Cursor.rest_first, Cursor.rest_first]
      change (s ++ t).dropWhile Text.isSpace = t.dropWhile Text.isSpace
      rw [List.dropWhile_append, hspaces]
      rfl
    have hshifted : T.first.Shifted D.first := by
      refine .of_source hrest ?_ hlast rfl
      rw [Cursor.source_first, Cursor.source_first]
      rfl
    exact source_of_levelled levelled_shift T.first.column_pos
      ⟨hshifted, rfl, hshifted.column_eq⟩ rfl h₂
  obtain ⟨lines, c, hlines, hend, rfl⟩ := source_eq_ok h₁ hne
  have hDne : D.first.rest ≠ [] := by
    rw [Cursor.rest_first] at hne ⊢
    change (s ++ t).dropWhile Text.isSpace ≠ []
    rw [List.dropWhile_append, if_neg (by rwa [List.isEmpty_iff])]
    exact fun hnil => hne (List.append_eq_nil_iff.1 hnil).1
  -- Otherwise its lines are read as before, and the block goes on with those of the other source.
  obtain ⟨d₁, g₁, owed, n, hpass, href, hids, howed, hd⟩ :=
    sourceLines_append h hplus hmore hne hlines hend
  obtain ⟨i, g, hendless⟩ | ⟨lines', d₂, g₂, hok, hrest, rfl⟩ :=
    resume_source n D.remaining howed husual hmore hlast hpass
      (sourceLines_ahead hlines) href h₂ (hids ▸ hnew)
  · refine absurd ⟨i, g, ?_⟩ (sourceLines_ends registry hDne .empty)
    rw [hd, hendless]
    rfl
  · rw [hok] at hd
    rw [← Outline.concat_append]
    obtain ⟨d, hd'⟩ := source_of_lines hDne hd hrest
    exact ⟨d, g₂, hd'⟩

end Grammar

end Dialogue
