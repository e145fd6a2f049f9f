import Dialogue.Proofs.Cursor.Line
import Dialogue.Proofs.Parser.Misses
import Dialogue.Proofs.Parser.Plan

/-!
# Scans

What a parser takes can be followed character by character by an automaton that knows nothing of
the parser. `Passes step G s c s' c'` says that from the place `c` to the place `c'` the automaton
gets from the state `s` to `s'`, and that at every place on the way, the last one excepted, the
state and the place satisfy `G`.

As a triple, `Scans step G P s p s' Q` says this of the answers of `p`: started in the state `s`
where `P` holds, it answers in the state `s'` where `Q` holds. Nothing is asked of a parser
that does not answer. There is one rule for each combinator, and one for a run of characters
that all keep the state (`Passes.run`).
-/

namespace Dialogue

variable {S : Type}

/-- The way of an automaton along the characters between two places. -/
inductive Passes (step : S → Char → S) (G : S → Cursor → Prop) :
    S → Cursor → S → Cursor → Prop where
  /-- Nothing lies in between. -/
  | here (s : S) (c : Cursor) : Passes step G s c s c
  /-- The first character, and those after it. -/
  | next {s s' : S} {c c' : Cursor} {x : Char} {xs : List Char} (hrest : c.rest = x :: xs)
      (hG : G s c) (h : Passes step G (step s x) (c.skip 1) s' c') : Passes step G s c s' c'

namespace Passes

variable {step : S → Char → S} {G : S → Cursor → Prop} {s s' s'' : S} {c c' c'' : Cursor}

/-- Two ways in a row are one way. -/
theorem trans (h : Passes step G s c s' c') (h' : Passes step G s' c' s'' c'') :
    Passes step G s c s'' c'' := by
  induction h with
  | here s c => exact h'
  | next hrest hG _ ih => exact .next hrest hG (ih h')

/-- One character. -/
theorem one {x : Char} {xs : List Char} (hrest : c.rest = x :: xs) (hG : G s c) :
    Passes step G s c (step s x) (c.skip 1) :=
  .next hrest hG (.here _ _)

/-- A run of characters that keep the state and the invariant. -/
theorem run {A : Char → Prop} {I : Cursor → Prop} {w ys : List Char} (hrest : c.rest = w ++ ys)
    (hw : ∀ x ∈ w, A x) (hc : I c) (hstep : ∀ x, A x → step s x = s)
    (hG : ∀ c x xs, I c → c.rest = x :: xs → A x → G s c)
    (hI : ∀ c x xs, I c → c.rest = x :: xs → A x → I (c.skip 1)) :
    Passes step G s c s (c.skip w.length) ∧ I (c.skip w.length) := by
  induction w generalizing c with
  | nil =>
    rw [List.length_nil, Cursor.skip_zero]
    exact ⟨.here s c, hc⟩
  | cons x w ih =>
    obtain ⟨hx, hw⟩ := List.forall_mem_cons.1 hw
    have hone : Passes step G s c (step s x) (c.skip 1) := .one hrest (hG c x _ hc hrest hx)
    rw [hstep x hx] at hone
    have hnext := ih (Cursor.rest_skip_one hrest) hw (hI c x _ hc hrest hx)
    rw [Cursor.skip_skip, Nat.add_comm] at hnext
    exact ⟨hone.trans hnext.1, hnext.2⟩

/-- The place where the way ends, the state there, and what holds on the way. -/
theorem spelled (h : Passes step G s c s' c') :
    ∃ n ≤ c.rest.length, c' = c.skip n ∧ s' = (c.rest.take n).foldl step s ∧
      ∀ m < n, G ((c.rest.take m).foldl step s) (c.skip m) := by
  induction h with
  | here s c =>
    refine ⟨0, Nat.zero_le _, (Cursor.skip_zero c).symm, rfl, fun m hm => ?_⟩
    exact absurd hm (Nat.not_lt_zero m)
  | @next s s' c c' x xs hrest hG _ ih =>
    obtain ⟨n, hn, rfl, rfl, hall⟩ := ih
    rw [Cursor.rest_skip_one hrest] at hn hall ⊢
    refine ⟨n + 1, ?_, ?_, ?_, fun m hm => ?_⟩
    · rw [hrest]
      exact Nat.succ_le_succ hn
    · rw [Cursor.skip_skip, Nat.add_comm]
    · rw [hrest]
      rfl
    · cases m with
      | zero =>
        rw [Cursor.skip_zero]
        exact hG
      | succ m =>
        have := hall m (Nat.lt_of_succ_lt_succ hm)
        rw [Cursor.skip_skip, Nat.add_comm] at this
        rw [hrest]
        exact this

end Passes

namespace Parser

variable {σ α β : Type}

/-- Started in the state `s` where `P` holds, `p` answers in the state `s'` where `Q` holds. -/
def Scans (step : S → Char → S) (G : S → Cursor → Prop) (P : Cursor → Prop) (s : S)
    (p : Parser σ α) (s' : S) (Q : Cursor → Prop) : Prop :=
  ∀ ⦃c j a c' j'⦄, P c → p c j = .ok a c' j' → Passes step G s c s' c' ∧ Q c'

namespace Scans

variable {step : S → Char → S} {G : S → Cursor → Prop} {P P' Q R : Cursor → Prop} {s s₁ s' : S}
  {p : Parser σ α}

/-! ## Rules for every parser -/

/-- What is said of where a parser stops may be weakened. -/
theorem mono (h : Scans step G P s p s' Q) (hQ : ∀ c, Q c → R c) : Scans step G P s p s' R :=
  fun _ _ _ _ _ hP hp => (h hP hp).imp_right (hQ _)

/-- What is asked of where a parser starts may be strengthened. -/
theorem pre (h : Scans step G P s p s' Q) (hP : ∀ c, P' c → P c) : Scans step G P' s p s' Q :=
  fun _ _ _ _ _ hc hp => h (hP _ hc) hp

/-- A value takes no character. -/
theorem pure {a : α} : Scans step G P s (Pure.pure a : Parser σ α) s P := by
  rintro c _ _ _ _ hP ⟨⟩
  exact ⟨.here s c, hP⟩

/-- In turn, the second parser starts in the state where the first one stops. -/
theorem bind {f : α → Parser σ β} (hp : Scans step G P s p s₁ Q)
    (hf : ∀ a, Scans step G Q s₁ (f a) s' R) : Scans step G P s (p >>= f) s' R := by
  intro c j b c' j' hP h
  obtain ⟨a, c₁, j₁, hr, h⟩ := of_bind_eq_ok h
  obtain ⟨hfirst, hQ⟩ := hp hP hr
  exact (hf a hQ h).imp_left hfirst.trans

/-- A changed value is read from the same characters. -/
theorem map {f : α → β} (hp : Scans step G P s p s' Q) : Scans step G P s (f <$> p) s' Q :=
  hp.bind fun _ => pure

/-- A rule whose value is thrown away scans as it does. -/
theorem discard (hp : Scans step G P s p s' Q) : Scans step G P s (Functor.discard p) s' Q :=
  hp.map

/-- Two parsers in turn are scanned one after the other if the first value is kept. -/
theorem seqLeft {q : Parser σ β} (hp : Scans step G P s p s₁ Q)
    (hq : Scans step G Q s₁ q s' R) : Scans step G P s (p <* q) s' R :=
  hp.bind fun _ => hq.bind fun _ => pure

/-- Two parsers in turn are scanned one after the other if the second value is kept. -/
theorem seqRight {q : Parser σ β} (hp : Scans step G P s p s₁ Q)
    (hq : Scans step G Q s₁ q s' R) : Scans step G P s (p *> q) s' R :=
  hp.bind fun _ => hq

/-- Alternatives start in one state. -/
theorem orElse {q : Parser σ α} (hp : Scans step G P s p s' Q) (hq : Scans step G P s q s' Q) :
    Scans step G P s (p <|> q) s' Q :=
  fun _ _ _ _ _ hP h => (of_orElse_eq_ok h).elim (hp hP) fun h => hq hP h.2

/-- What may be missing keeps the state, as nothing is taken if it is. -/
theorem optional (hp : Scans step G P s p s Q) (hQ : ∀ c, P c → Q c) :
    Scans step G P s (Parser.optional p) s Q := by
  intro c j o c' j' hP h
  obtain ⟨a, -, hr⟩ | ⟨-, rfl, -⟩ := of_optional_eq_ok h
  · exact hp hP hr
  · exact ⟨.here s _, hQ _ hP⟩

/-- Going on with the answer, or without one from before. -/
theorem optionalBind {f : Option α → Parser σ β} (hp : Scans step G P s p s₁ Q)
    (hsome : ∀ a, Scans step G Q s₁ (f (some a)) s' R) (hnone : Scans step G P s (f none) s' R) :
    Scans step G P s (Parser.optional p >>= f) s' R := by
  intro c j b c' j' hP h
  obtain ⟨o, c₁, j₁, ho, hrest⟩ := of_bind_eq_ok h
  obtain ⟨a, rfl, hr⟩ | ⟨rfl, rfl, rfl, -⟩ := of_optional_eq_ok ho
  · obtain ⟨hfirst, hQ⟩ := hp hP hr
    exact (hsome a hQ hrest).imp_left hfirst.trans
  · exact hnone hP hrest

/-- What is only looked at takes no character. -/
theorem lookAhead : Scans step G P s (Parser.lookAhead p) s P := by
  intro c j _ c' j' hP h
  obtain ⟨rfl, -⟩ := of_lookAhead_eq_ok h
  exact ⟨.here s c', hP⟩

/-- What must not follow takes no character. -/
theorem notFollowedBy {what : String} : Scans step G P s (Parser.notFollowedBy p what) s P := by
  intro c j _ c' j' hP h
  obtain ⟨rfl, -⟩ := of_notFollowedBy_eq_ok h
  exact ⟨.here s c', hP⟩

/-- What is only tried takes no character. -/
theorem wouldMatch : Scans step G P s (Parser.wouldMatch p) s P := by
  intro c j _ c' j' hP h
  obtain ⟨rfl, -⟩ := of_wouldMatch_eq_ok h
  exact ⟨.here s c', hP⟩

/-- To ask for the offset takes no character. -/
theorem position : Scans step G P s (Parser.position : Parser σ Nat) s P := by
  rintro c _ _ _ _ hP ⟨⟩
  exact ⟨.here s c, hP⟩

/-- To note something takes no character. -/
theorem record {f : σ → σ} : Scans step G P s (Parser.record f) s P := by
  rintro c _ _ _ _ hP ⟨⟩
  exact ⟨.here s c, hP⟩

/-- Nothing is asked of a fatal failure. -/
theorem fatalAt {index : Nat} {reason : Reason} :
    Scans step G P s (Parser.fatalAt index reason : Parser σ α) s' Q :=
  fun _ _ _ _ _ _ h => nomatch h

/-- Nothing is asked of a miss. -/
theorem missAt {index : Nat} {e : List String} :
    Scans step G P s (fun _ j => .miss index e j : Parser σ α) s' Q :=
  fun _ _ _ _ _ _ h => nomatch h

/-- Of two parsers the one that is chosen is scanned. -/
theorem ite {b : Prop} [Decidable b] {q : Parser σ α} (hp : b → Scans step G P s p s' Q)
    (hq : ¬b → Scans step G P s q s' Q) : Scans step G P s (if b then p else q) s' Q := by
  split
  · exact hp ‹b›
  · exact hq ‹¬b›

/-- Where a condition holds `stop` is run first, which never answers. -/
theorem stopIf {b : Prop} [Decidable b] {stop : Parser σ Unit}
    (hstop : ∀ R, Scans step G P s stop s R) (hp : Scans step G P s p s' Q) :
    Scans step G P s (if b then stop >>= fun _ => p else p) s' Q :=
  ite (fun _ => (hstop P).bind fun _ => hp) fun _ => hp

/-- Of two readings only the one that answers is scanned. -/
theorem reread {p : Parser σ (Option α)} {q : Parser σ α} (hp : Scans step G P s p s' Q)
    (hq : Scans step G P s q s' Q) : Scans step G P s (Parser.reread p q) s' Q := by
  intro c j a c' j' hP h
  rw [Parser.reread] at h
  split at h
  · rename_i hr
    cases h
    exact hp hP hr
  · exact hq hP h
  · cases h
  · cases h

/-! ## Repetitions -/

/-- A chain keeps the state if its operands and operators do. -/
theorem chainLeft {operand : Parser σ α} {operator : Parser σ (α → α → α)}
    (hoperand : Scans step G P s operand s P) (hoperator : Scans step G P s operator s P) :
    Scans step G P s (Parser.chainLeft operand operator) s P := by
  have hlink (acc : α) : Scans step G P s
      (do let f ← operator; let b ← operand; Pure.pure (f acc b)) s P :=
    hoperator.bind fun _ => hoperand.bind fun _ => pure
  refine hoperand.bind fun acc c j => ?_
  fun_induction Parser.chainRest operand operator acc c j with
  | case1 acc c j acc' c₁ j₁ hstep _ ih =>
    intro a c' j' hP h
    obtain ⟨hfirst, hP⟩ := hlink acc hP hstep
    exact (ih hP h).imp_left hfirst.trans
  | case2 => rintro _ _ _ _ ⟨⟩
  | case3 acc c =>
    rintro _ _ _ hP ⟨⟩
    exact ⟨.here s c, hP⟩
  | case4 => rintro _ _ _ _ ⟨⟩

/-- Between the items of a block `Q` holds, and where the block goes on `P` holds again. -/
theorem block {item : Parser σ α} {continues : Parser σ β} {owed : Nat}
    (hitem : Scans step G P s (item <* lineEnd) s Q)
    (hnext : ∀ ⦃c j b c' j'⦄, Q c → continues (c.skipWhile Text.isBlank) j = .ok b c' j' →
      Passes step G s c s (c.skipWhile Text.isBlank) ∧ P (c.skipWhile Text.isBlank)) :
    Scans step G P s (Parser.block item continues owed) s Q := by
  intro c j
  fun_induction Parser.block item continues owed c j with
  | case1 => rintro _ _ _ _ ⟨⟩
  | case2 => rintro _ _ _ _ ⟨⟩
  | case3 owed c j a c₁ j₁ hfirst =>
    rintro _ _ _ hP ⟨⟩
    exact hitem hP hfirst
  | case4 owed c j a c₁ j₁ hfirst _ next b c₂ j₂ hcont _ =>
    rename_i ih
    intro as c' j' hP h
    obtain ⟨bs, hrest, rfl⟩ := Reply.of_map_eq_ok h
    obtain ⟨hitem, hQ⟩ := hitem hP hfirst
    obtain ⟨hblanks, hP⟩ := hnext hQ hcont
    exact (ih hP hrest).imp_left (hitem.trans hblanks).trans
  | case5 => rintro _ _ _ _ ⟨⟩
  | case6 owed c j a c₁ j₁ hfirst =>
    rintro _ _ _ hP ⟨⟩
    exact hitem hP hfirst
  | case7 => rintro _ _ _ _ ⟨⟩
  | case8 => rintro _ _ _ _ ⟨⟩

/-- A repetition keeps the state if its items do. -/
theorem many {owed : Nat} (hp : Scans step G P s p s P) :
    Scans step G P s (Parser.many p owed) s P := by
  intro c j
  fun_induction Parser.many p owed c j with
  | case1 owed c j a c₁ j₁ hr _ ih =>
    intro as c' j' hP h
    obtain ⟨bs, hrest, rfl⟩ := Reply.of_map_eq_ok h
    obtain ⟨hfirst, hP⟩ := hp hP hr
    exact (ih hP hrest).imp_left hfirst.trans
  | case2 owed c j a c₁ j₁ hr =>
    rintro _ _ _ hP ⟨⟩
    exact hp hP hr
  | case3 c =>
    rintro _ _ _ hP ⟨⟩
    exact ⟨.here s c, hP⟩
  | case4 => rintro _ _ _ _ ⟨⟩
  | case5 => rintro _ _ _ _ ⟨⟩

end Scans

/-! ## What tokens take -/

/-- A parser that answers takes a run of characters that satisfy `A`. -/
def Spans (A : Char → Bool) (p : Parser σ α) : Prop :=
  ∀ ⦃c j a c' j'⦄, p c j = .ok a c' j' →
    ∃ w ys, c.rest = w ++ ys ∧ c' = c.skip w.length ∧ ∀ x ∈ w, A x

section

variable {A set : Char → Bool}

/-- A run is what is ahead up to the first character that is not of the class. -/
theorem of_takeWhile_eq_ok {c c' : Cursor} {j j' : σ} {run : List Char}
    (h : takeWhile set c j = .ok run c' j') :
    c' = c.skip run.length ∧ j' = j ∧ c.rest = run ++ c'.rest ∧ ∀ x ∈ run, set x := by
  cases h
  refine ⟨rfl, rfl, ?_, List.all_eq_true.1 List.all_takeWhile⟩
  have htake := List.prefix_iff_eq_take.1 (List.takeWhile_prefix set (l := c.rest))
  rw [Cursor.rest_skip]
  conv => rhs; lhs; rw [htake]
  exact (List.take_append_drop ..).symm

/-- A run of a class has characters of that class only. -/
theorem spans_takeWhile (h : ∀ x, set x → A x) : Spans A (takeWhile set : Parser σ _) := by
  intro c j run c' j' hr
  obtain ⟨hskip, -, hrest, hrun⟩ := of_takeWhile_eq_ok hr
  exact ⟨run, _, hrest, hskip, fun x hx => h x (hrun x hx)⟩

/-- What is ahead behind the longest run of characters in a class is no character of it. -/
theorem takeWhile_stops {c c' : Cursor} {j j' : σ} {w : List Char} {x : Char} {xs : List Char}
    (h : takeWhile set c j = .ok w c' j') (hx : c'.rest = x :: xs) : set x = false := by
  cases h
  have hdrop : c.rest.drop (c.rest.takeWhile set).length = c.rest.dropWhile set := by
    conv => lhs; arg 2; rw [← List.takeWhile_append_dropWhile (p := set) (l := c.rest)]
    exact List.drop_left
  have hhead := List.head?_dropWhile_not set c.rest
  rw [← hdrop, ← Cursor.rest_skip, hx] at hhead
  exact hhead

/-- A run that must not be empty has characters of its class only. -/
theorem spans_takeWhile1 {what : String} (h : ∀ x, set x → A x) :
    Spans A (takeWhile1 set what : Parser σ _) := by
  intro c j a c' j' hr
  rw [takeWhile1] at hr
  split at hr
  · cases hr
  · cases hr
    exact spans_takeWhile h (j := j) rfl

/-- A single character is of its class. -/
theorem spans_satisfy {what : String} (h : ∀ x, set x → A x) :
    Spans A (satisfy set what : Parser σ _) := by
  intro c j a c' j' hr
  rw [satisfy] at hr
  split at hr
  · rename_i x xs hrest
    split at hr
    · rename_i hx
      cases hr
      exact ⟨[a], xs, hrest, rfl, fun y hy => by rw [List.mem_singleton.1 hy]; exact h a hx⟩
    · cases hr
  · cases hr

/-- What a fixed text is compared with starts with its characters. -/
theorem spans_prefix {w xs : List Char} (h : w.isPrefixOf xs) (hA : w.all A) :
    ∃ ys, xs = w ++ ys ∧ ∀ x ∈ w, A x := by
  obtain ⟨ys, hys⟩ := List.isPrefixOf_iff_prefix.1 h
  exact ⟨ys, hys.symm, List.all_eq_true.1 hA⟩

/-- A fixed text has its own characters. -/
theorem spans_tag {text : String} (h : text.toList.all A) :
    Spans A (tag text : Parser σ _) := by
  intro c j a c' j' hr
  rw [tag] at hr
  split at hr
  · rename_i hpre
    cases hr
    obtain ⟨ys, hys, hA⟩ := spans_prefix hpre h
    exact ⟨_, ys, hys, by rw [String.length_toList], hA⟩
  · cases hr

/-- A word has its own characters. -/
theorem spans_keyword {word : String} (h : word.toList.all A) :
    Spans A (keyword word : Parser σ _) := by
  intro c j a c' j' hr
  rw [keyword] at hr
  split at hr
  · rename_i hpre
    cases hr
    obtain ⟨ys, hys, hA⟩ := spans_prefix (Bool.and_eq_true_iff.1 hpre).1 h
    exact ⟨_, ys, hys, by rw [String.length_toList], hA⟩
  · cases hr

/-- An operator has its own characters. -/
theorem spans_symbol {spelling : String} (h : spelling.toList.all A) :
    Spans A (symbol spelling : Parser σ _) := by
  rw [symbol]
  split
  · exact spans_keyword h
  · exact spans_tag h

/-- What is accepted has the same characters. -/
theorem Spans.filter {accepts : α → Bool} {what : String} {p : Parser σ α} (h : Spans A p) :
    Spans A (Parser.filter accepts what p) :=
  fun _ _ _ _ _ hr => h (of_filter_eq_ok hr).1

/-- A changed value has the same characters. -/
theorem Spans.map {f : α → β} {p : Parser σ α} (h : Spans A p) : Spans A (f <$> p) := by
  intro c j b c' j' hr
  obtain ⟨a, c₁, j₁, hp, hr⟩ := of_bind_eq_ok hr
  cases hr
  exact h hp

/-- Alternatives have the characters of the one that answers. -/
theorem Spans.orElse {p q : Parser σ α} (hp : Spans A p) (hq : Spans A q) :
    Spans A (p <|> q) :=
  fun _ _ _ _ _ h => (of_orElse_eq_ok h).elim (hp ·) fun h => hq h.2

/-- What is missing has no characters. -/
theorem Spans.optional {p : Parser σ α} (h : Spans A p) : Spans A (Parser.optional p) := by
  intro c j a c' j' hr
  obtain ⟨a, -, hr⟩ | ⟨-, rfl, -⟩ := of_optional_eq_ok hr
  · exact h hr
  · exact ⟨[], _, rfl, (Cursor.skip_zero _).symm, List.forall_mem_nil _⟩

/-- A fixed character that is answered is next, and is taken. -/
theorem of_char_eq_ok {x y : Char} {c c' : Cursor} {j j' : σ} (h : char x c j = .ok y c' j') :
    y = x ∧ c' = c.skip 1 ∧ j' = j ∧ ∃ xs, c.rest = x :: xs := by
  rw [char, satisfy] at h
  split at h
  · rename_i xs hrest
    split at h
    · rename_i hx
      cases h
      cases of_decide_eq_true hx
      exact ⟨rfl, rfl, rfl, xs, hrest⟩
    · cases h
  · cases h

/-- Where a fixed character is answered, it is next. -/
theorem char_eq_ok {x y : Char} {c c' : Cursor} {j j' : σ} (h : char x c j = .ok y c' j') :
    ∃ xs, c.rest = x :: xs ∧ c' = c.skip 1 := by
  obtain ⟨-, hskip, -, xs, hrest⟩ := of_char_eq_ok h
  exact ⟨xs, hrest, hskip⟩

/-- The characters of a number. -/
def isNumeric (x : Char) : Bool := x.isDigit || ['_', '.', '+', '-'].contains x

/-- A run of digits is what a text starts with, and is of numeric characters. -/
theorem digitRun_eq (cs : List Char) :
    ∃ ys, cs = digitRun cs ++ ys ∧ ∀ x ∈ digitRun cs, isNumeric x := by
  rw [digitRun]
  split
  · refine ⟨_, (List.takeWhile_append_dropWhile (p := _)).symm, fun x hx => ?_⟩
    have hx := List.all_eq_true.1 List.all_takeWhile x hx
    simp only [Bool.or_eq_true, decide_eq_true_eq] at hx
    rcases hx with hx | rfl
    · rw [isNumeric, hx, Bool.true_or]
    · rfl
  · exact ⟨cs, rfl, nofun⟩

/-- The sign that a number may start with, and what follows it. -/
def signed : List Char → List Char × List Char
  | c :: rest => if c = '+' || c = '-' then ([c], rest) else ([], c :: rest)
  | [] => ([], [])

/-- A sign is what a number starts with, and is a numeric character. -/
theorem signed_eq (cs : List Char) :
    cs = (signed cs).1 ++ (signed cs).2 ∧ ∀ x ∈ (signed cs).1, isNumeric x := by
  cases cs with
  | nil => exact ⟨rfl, nofun⟩
  | cons c rest =>
    rw [signed]
    split
    · rename_i hc
      refine ⟨rfl, fun x hx => ?_⟩
      obtain rfl := List.mem_singleton.1 hx
      simp only [Bool.or_eq_true, decide_eq_true_eq] at hc
      rcases hc with rfl | rfl <;> rfl
    · exact ⟨rfl, nofun⟩

/-- A number with its sign apart. -/
theorem numeral?_signed (cs : List Char) :
    numeral? cs =
      let (sign, cs) := signed cs
      let whole := digitRun cs
      if whole.isEmpty then none
      else match cs.drop whole.length with
        | '.' :: rest =>
          let fraction := digitRun rest
          some (if fraction.isEmpty then sign ++ whole else sign ++ whole ++ '.' :: fraction)
        | _ => some (sign ++ whole) := by
  cases cs <;> rfl

/-- A number is what a text starts with. -/
theorem numeral?_eq {cs numeral : List Char} (h : numeral? cs = some numeral) :
    ∃ ys, cs = numeral ++ ys ∧ ∀ x ∈ numeral, isNumeric x := by
  rw [numeral?_signed] at h
  obtain ⟨hcs, hsign⟩ := signed_eq cs
  -- The pieces are named, so that the cases of what is behind the digits are those of one list.
  revert h hcs hsign
  generalize signed cs = parts
  obtain ⟨sign, body⟩ := parts
  rintro h rfl hsign
  obtain ⟨ys, hbody, hwhole⟩ := digitRun_eq body
  revert h hbody hwhole
  dsimp only
  generalize digitRun body = whole
  rintro h rfl hwhole
  have hsw : ∀ x ∈ sign ++ whole, isNumeric x := fun x hx =>
    (List.mem_append.1 hx).elim (hsign x) (hwhole x)
  rw [List.drop_left] at h
  split at h
  · cases h
  split at h
  · rename_i rest
    obtain ⟨zs, hrest, hfraction⟩ := digitRun_eq rest
    cases h
    split
    · exact ⟨_, (List.append_assoc ..).symm, hsw⟩
    · refine ⟨zs, ?_, fun x hx => (List.mem_append.1 hx).elim (hsw x) fun hx => ?_⟩
      · rw [List.append_assoc (sign ++ whole), List.cons_append, ← hrest, List.append_assoc]
      · rcases List.mem_cons.1 hx with rfl | hx
        · rfl
        · exact hfraction x hx
  · cases h
    exact ⟨ys, (List.append_assoc ..).symm, hsw⟩

/-- A number is of numeric characters. -/
theorem spans_number (hA : ∀ x, isNumeric x → A x) : Spans A (number : Parser σ _) := by
  intro c j a c' j' hr
  rw [number] at hr
  split at hr
  · cases hr
  · rename_i numeral hnumeral
    obtain ⟨ys, hys, hnumeric⟩ := numeral?_eq hnumeral
    split at hr
    · cases hr
      exact ⟨numeral, ys, hys, rfl, fun x hx => hA x (hnumeric x hx)⟩
    · cases hr

end

/-! ## Scans of tokens -/

namespace Scans

variable {step : S → Char → S} {G : S → Cursor → Prop} {P Q : Cursor → Prop} {s s' : S}

/-- A single character takes a step of the automaton. -/
theorem satisfy {set : Char → Bool} {what : String} (hstep : ∀ x, set x → step s x = s')
    (hG : ∀ c x xs, P c → c.rest = x :: xs → set x → G s c ∧ Q (c.skip 1)) :
    Scans step G P s (Parser.satisfy set what : Parser σ Char) s' Q := by
  intro c j a c' j' hP h
  rw [Parser.satisfy] at h
  split at h
  · rename_i x xs hrest
    split at h
    · rename_i hx
      cases h
      obtain ⟨hG, hQ⟩ := hG c _ _ hP hrest hx
      exact ⟨hstep _ hx ▸ .one hrest hG, hQ⟩
    · cases h
  · cases h

/-- A fixed character takes its own step. -/
theorem char {x : Char} (hG : ∀ c xs, P c → c.rest = x :: xs → G s c ∧ Q (c.skip 1)) :
    Scans step G P s (Parser.char x : Parser σ Char) (step s x) Q := by
  refine satisfy (fun y hy => ?_) fun c y ys hP hrest hy => ?_
  · rw [of_decide_eq_true hy]
  · cases of_decide_eq_true hy
    exact hG c ys hP hrest

/-- What a run of characters takes, all of which keep the state and the invariant. -/
theorem token {A : Char → Bool} {p : Parser σ α} (hp : Spans A p)
    (hstep : ∀ x, A x → step s x = s)
    (hG : ∀ c x xs, P c → c.rest = x :: xs → A x → G s c)
    (hP : ∀ c x xs, P c → c.rest = x :: xs → A x → P (c.skip 1)) :
    Scans step G P s p s P := by
  intro c j a c' j' hc h
  obtain ⟨w, ys, hrest, rfl, hw⟩ := hp h
  exact Passes.run hrest hw hc hstep hG hP

end Scans

end Parser

end Dialogue
