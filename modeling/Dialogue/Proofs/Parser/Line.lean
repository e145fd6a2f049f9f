import Dialogue.Proofs.Parser.Agree
import Dialogue.Proofs.Parser.Misses
import Dialogue.Proofs.Parser.Pace
import Dialogue.Proofs.Parser.Scan

/-!
# Tokens of a line

Most tokens lie on one line: what they answer, and how many characters they take, depends on
nothing but what is ahead on the line (`OfLine`). Many of them do not even see past a closing brace:
in general, a token may see what is ahead before a character of a class (`OfSight`). So does what is
made of such tokens one after the other. Where two sources have the same in sight, two runs of such
a token agree (`OfSight.agree`).
-/

namespace Dialogue

namespace Cursor

/-- What is ahead before a character of a class. -/
def sight (stop : Char → Bool) (c : Cursor) : List Char := c.rest.takeWhile (!stop ·)

/-- What is ahead on the line. -/
def line (c : Cursor) : List Char := c.rest.takeWhile (!Text.isBreak ·)

section

variable (stop : Char → Bool)

/-- Behind what is in sight the source ends or there is a character of the class. -/
theorem rest_eq_sight (c : Cursor) :
    ∃ ys, c.rest = c.sight stop ++ ys ∧ ∀ x ∈ ys.head?, stop x := by
  refine ⟨_, (List.takeWhile_append_dropWhile (p := (!stop ·))).symm, fun x hx => ?_⟩
  have hhead := List.head?_dropWhile_not (!stop ·) c.rest
  rw [hx] at hhead
  simpa using hhead

/-- What is in sight is part of what is ahead. -/
theorem sight_length_le (c : Cursor) : (c.sight stop).length ≤ c.rest.length :=
  (List.takeWhile_prefix _).length_le

variable {stop}

/-- No character in sight stops the sight. -/
theorem not_stop_of_sight {c : Cursor} {x : Char} (h : x ∈ c.sight stop) : stop x = false := by
  simpa using List.all_eq_true.1 (List.all_takeWhile (p := (!stop ·))) x h

/-- Skipping within sight takes the skipped characters out of it. -/
theorem sight_skip {c : Cursor} {n : Nat} (h : n ≤ (c.sight stop).length) :
    (c.skip n).sight stop = (c.sight stop).drop n := by
  obtain ⟨ys, hrest, hys⟩ := c.rest_eq_sight stop
  have hall : ∀ x ∈ (c.sight stop).drop n, (!stop x) = true := fun x hx => by
    rw [not_stop_of_sight (List.mem_of_mem_drop hx)]
    rfl
  have hstop : ys.takeWhile (!stop ·) = [] := by
    cases ys with
    | nil => rfl
    | cons y ys => exact List.takeWhile_cons_of_neg (by simp [hys y rfl])
  rw [sight, rest_skip, hrest, List.drop_append_of_le_length h, List.takeWhile_append_of_pos hall,
    hstop, List.append_nil]

end

/-- Behind the line the source ends or there is a line break. -/
theorem rest_eq_line (c : Cursor) :
    ∃ ys, c.rest = c.line ++ ys ∧ ∀ x ∈ ys.head?, Text.isBreak x :=
  c.rest_eq_sight Text.isBreak

/-- There is no line break on a line. -/
theorem not_isBreak_of_line {c : Cursor} {x : Char} (h : x ∈ c.line) : Text.isBreak x = false :=
  not_stop_of_sight h

end Cursor

namespace Parser

variable {σ α β : Type}

/-- Two replies of a token at `c` and `d`: it takes the same characters in sight, or misses. -/
inductive SameToken (stop : Char → Bool) (c d : Cursor) (j k : σ) :
    Reply σ α → Reply σ α → Prop where
  /-- The token is there. -/
  | ok (a : α) {n : Nat} (hn : n ≤ (c.sight stop).length) :
    SameToken stop c d j k (.ok a (c.skip n) j) (.ok a (d.skip n) k)
  /-- The token is not there. -/
  | miss {i i' : Nat} {e e' : List String} : SameToken stop c d j k (.miss i e j) (.miss i' e' k)

/-- What the parser answers depends only on what is ahead before a character of a class. -/
def OfSight (stop : Char → Bool) (p : Parser σ α) : Prop :=
  ∀ ⦃c d⦄ j k, c.sight stop = d.sight stop → SameToken stop c d j k (p c j) (p d k)

/-- What the parser answers depends only on what is ahead on the line. -/
abbrev OfLine (p : Parser σ α) : Prop := OfSight Text.isBreak p

variable {stop : Char → Bool}

/-- A run of characters that do not stop the sight lies in it. -/
theorem takeWhile_sight {set : Char → Bool} (hset : ∀ x, set x → stop x = false) (xs : List Char) :
    (xs.takeWhile (!stop ·)).takeWhile set = xs.takeWhile set := by
  induction xs with
  | nil => rfl
  | cons x xs ih =>
    cases hx : stop x with
    | false => rw [List.takeWhile_cons_of_pos (by simp [hx]), List.takeWhile_cons,
        List.takeWhile_cons, ih]
    | true =>
      have hset' : ¬set x := fun h => by simp [hset x h] at hx
      rw [List.takeWhile_cons_of_neg (by simp [hx]), List.takeWhile_cons_of_neg hset']
      rfl

namespace OfSight

variable {p q : Parser σ α}

/-- A token may be shown more. -/
theorem mono {stop' : Char → Bool} (hp : OfSight stop p) (h : ∀ x, stop' x → stop x) :
    OfSight stop' p := by
  have hsight (c : Cursor) : c.sight stop = (c.sight stop').takeWhile (!stop ·) :=
    (takeWhile_sight (fun x hx => Bool.eq_false_iff.2 fun hx' => by simp [h x hx'] at hx) _).symm
  intro c d j k hline
  have hsame := hp (c := c) (d := d) j k (by rw [hsight c, hsight d, hline])
  generalize p c j = r, p d k = r' at hsame ⊢
  cases hsame with
  | ok a hn =>
    refine .ok a (Nat.le_trans hn ?_)
    rw [hsight]
    exact (List.takeWhile_prefix _).length_le
  | miss => exact .miss

/-! ## Rules for every parser -/

/-- An answer that reads nothing needs no sight. -/
theorem pure (a : α) : OfSight stop (Pure.pure a : Parser σ α) := fun c d j k _ => by
  have h : SameToken stop c d j k (.ok a (c.skip 0) j) (.ok a (d.skip 0) k) := .ok a (Nat.zero_le _)
  rwa [Cursor.skip_zero, Cursor.skip_zero] at h

/-- Two tokens one after the other need no more sight than each of them. -/
theorem bind {f : α → Parser σ β} (hp : OfSight stop p) (hf : ∀ a, OfSight stop (f a)) :
    OfSight stop (p >>= f) := by
  intro c d j k hline
  have h := hp j k hline
  rw [bind_apply, bind_apply]
  generalize p c j = r, p d k = r' at h ⊢
  cases h with
  | @ok a n hn =>
    have hn' : n ≤ (d.sight stop).length := hline ▸ hn
    have hnext : (c.skip n).sight stop = (d.skip n).sight stop := by
      rw [Cursor.sight_skip hn, Cursor.sight_skip hn', hline]
    have h := hf a j k hnext
    change SameToken stop c d j k (f a (c.skip n) j) (f a (d.skip n) k)
    generalize f a (c.skip n) j = r, f a (d.skip n) k = r' at h ⊢
    cases h with
    | @ok b m hm =>
      rw [Cursor.sight_skip hn, List.length_drop] at hm
      rw [Cursor.skip_skip, Cursor.skip_skip]
      exact .ok b (by omega)
    | miss => exact .miss
  | miss => exact .miss

/-- The answer of a token may be mapped. -/
theorem map {f : α → β} (hp : OfSight stop p) : OfSight stop (f <$> p) := hp.bind fun _ => pure _

/-- Two tokens of which the first one answers need no more sight than each of them. -/
theorem seqLeft {q : Parser σ β} (hp : OfSight stop p) (hq : OfSight stop q) :
    OfSight stop (p <* q) :=
  hp.bind fun _ => hq.bind fun _ => pure _

/-- An alternative sees what both of its parts see. -/
theorem orElse (hp : OfSight stop p) (hq : OfSight stop q) : OfSight stop (p <|> q) := by
  intro c d j k hline
  have h := hp j k hline
  have h' := hq j k hline
  change SameToken stop c d j k (Parser.orElse p q c j) (Parser.orElse p q d k)
  rw [Parser.orElse, Parser.orElse]
  generalize p c j = r, p d k = r' at h ⊢
  generalize q c j = s, q d k = s' at h' ⊢
  cases h with
  | ok a hn => exact .ok a hn
  | miss =>
    cases h' with
    | ok a hn => exact .ok a hn
    | miss => exact .miss

/-- A token that may be missing needs no more sight. -/
theorem optional (hp : OfSight stop p) : OfSight stop (Parser.optional p) := by
  intro c d j k hline
  have h := hp j k hline
  rw [Parser.optional, Parser.optional]
  generalize p c j = r, p d k = r' at h ⊢
  cases h with
  | ok a hn => exact .ok _ hn
  | miss => exact pure none j k hline

/-- A token whose answer is checked needs no more sight. -/
theorem filter {accepts : α → Bool} {what : String} (hp : OfSight stop p) :
    OfSight stop (Parser.filter accepts what p) := by
  intro c d j k hline
  have h := hp j k hline
  rw [Parser.filter, Parser.filter]
  generalize p c j = r, p d k = r' at h ⊢
  cases h with
  | ok a hn =>
    dsimp only
    split
    · exact .ok a hn
    · exact .miss
  | miss => exact .miss

/-- To look for what must not be there takes no more sight than to read it. -/
theorem notFollowedBy {what : String} (hp : OfSight stop p) :
    OfSight stop (Parser.notFollowedBy p what) := by
  intro c d j k hline
  have h := hp j k hline
  rw [Parser.notFollowedBy, Parser.notFollowedBy]
  generalize p c j = r, p d k = r' at h ⊢
  cases h with
  | ok => exact .miss
  | miss => exact pure () j k hline

/-- A rule that only fails needs no sight. -/
theorem expected (what : String) : OfSight stop (Parser.expected what : Parser σ α) :=
  fun _ _ _ _ _ => .miss

/-- A token that is missing is missing wherever the same is in sight. -/
theorem misses {c d : Cursor} {j : σ} (hp : OfSight stop p) (hline : c.sight stop = d.sight stop)
    (h : Misses p c j) (k : σ) : Misses p d k := by
  obtain ⟨i, e, j', h⟩ := h
  have hsame := hp j k hline
  rw [h] at hsame
  generalize hd : p d k = r at hsame
  cases hsame
  exact ⟨_, _, _, hd⟩

/-- Two runs of a token agree where the same is in sight. -/
theorem agree {J : σ → σ → Prop} {P : Cursor → Cursor → Prop} {A : Char → Bool}
    (hp : OfSight stop p) (hA : Spans A p) (hline : ∀ c d, P c d → c.sight stop = d.sight stop)
    (hstep : ∀ c d x xs, P c d → c.sight stop = x :: xs → A x → P (c.skip 1) (d.skip 1)) :
    Agree J P p p P := by
  have hskip (n : Nat) : ∀ c d, P c d → n ≤ (c.sight stop).length →
      (∀ x ∈ (c.sight stop).take n, A x) → P (c.skip n) (d.skip n) := by
    induction n with
    | zero =>
      intro c d hP _ _
      rwa [Cursor.skip_zero, Cursor.skip_zero]
    | succ n ih =>
      intro c d hP hn hA
      cases hx : c.sight stop with
      | nil =>
        rw [hx] at hn
        exact absurd hn (Nat.not_succ_le_zero n)
      | cons x xs =>
        rw [hx] at hn hA
        have hone := Cursor.sight_skip (c := c) (n := 1) (by rw [hx]; exact Nat.le_add_left 1 _)
        rw [hx, List.drop_one, List.tail_cons] at hone
        have hnext := ih _ _ (hstep c d x xs hP hx (hA x List.mem_cons_self))
          (by rw [hone]; exact Nat.le_of_succ_le_succ hn)
          (by rw [hone]; exact fun y hy => hA y (List.mem_cons_of_mem _ hy))
        rwa [Cursor.skip_skip, Cursor.skip_skip, Nat.add_comm] at hnext
  intro c d j k hP hJ
  have h := hp j k (hline c d hP)
  cases hr : p c j with
  | ok a c' j' =>
    obtain ⟨w, ys, hw, rfl, hwA⟩ := hA hr
    rw [hr] at h
    generalize hc : c.skip w.length = c', p d k = r' at h ⊢
    cases h with
    | @ok _ n hn =>
      -- What is taken lies on the line, and is made of characters of the class.
      have hlength := congrArg (·.rest.length) hc
      simp only [Cursor.rest_skip, List.length_drop] at hlength
      have hle := c.sight_length_le stop
      have hw' : w.length ≤ c.rest.length := by rw [hw, List.length_append]; omega
      have hwn : w.length = n := by omega
      refine .ok (hskip n c d hP hn fun x hx => hwA x ?_) hJ
      obtain ⟨zs, hzs, -⟩ := c.rest_eq_sight stop
      have htake : w = (c.sight stop).take n := by
        have := congrArg (List.take n) (hw.symm.trans hzs)
        rwa [List.take_append_of_le_length hn, ← hwn, List.take_left, hwn] at this
      rwa [htake]
  | miss i e j' =>
    rw [hr] at h
    generalize p d k = r' at h ⊢
    cases h
    exact .miss
  | fatal i x j' =>
    rw [hr] at h
    cases h

end OfSight

/-! ## Tokens -/

section

variable {set : Char → Bool}

/-- A class without the two characters that end a line. -/
theorem not_isBreak_of_class (hfeed : set '\n' = false) (hreturn : set '\r' = false) {x : Char}
    (hx : set x) : Text.isBreak x = false := by
  cases hb : Text.isBreak x with
  | false => rfl
  | true =>
    simp only [Text.isBreak, Bool.or_eq_true, decide_eq_true_eq] at hb
    rcases hb with rfl | rfl
    · exact absurd hx (by rw [hfeed]; exact Bool.false_ne_true)
    · exact absurd hx (by rw [hreturn]; exact Bool.false_ne_true)

/-- Behind a run, what is left of it is in sight. -/
theorem sight_skipWhile {c : Cursor} (hset : ∀ x, set x → stop x = false) :
    (c.skipWhile set).sight stop = (c.sight stop).dropWhile set := by
  have hrun : c.rest.takeWhile set = (c.sight stop).takeWhile set :=
    (takeWhile_sight hset c.rest).symm
  have hline : (c.sight stop).takeWhile set ++ (c.sight stop).dropWhile set = c.sight stop :=
    List.takeWhile_append_dropWhile
  have hle : ((c.sight stop).takeWhile set).length ≤ (c.sight stop).length :=
    (List.takeWhile_prefix set).length_le
  rw [Cursor.skipWhile, hrun, Cursor.sight_skip hle]
  conv => lhs; arg 2; rw [← hline]
  exact List.drop_left

/-- Behind a run without line breaks, what is left of the line is ahead. -/
theorem line_skipWhile {c : Cursor} (hset : ∀ x, set x → Text.isBreak x = false) :
    (c.skipWhile set).line = c.line.dropWhile set :=
  sight_skipWhile hset

/-- A run of characters that do not stop the sight is read in it. -/
theorem ofSight_takeWhile (hset : ∀ x, set x → stop x = false) :
    OfSight stop (takeWhile set : Parser σ _) := by
  intro c d j k hline
  have hspec (c : Cursor) : c.rest.takeWhile set = (c.sight stop).takeWhile set :=
    (takeWhile_sight hset c.rest).symm
  simp only [takeWhile, hspec, hline]
  refine .ok _ ?_
  rw [hline]
  exact (List.takeWhile_prefix _).length_le

/-- A run that may not be empty is read in sight. -/
theorem ofSight_takeWhile1 (hset : ∀ x, set x → stop x = false) (what : String) :
    OfSight stop (takeWhile1 set what : Parser σ _) := by
  intro c d j k hline
  have hspec (c : Cursor) : c.rest.takeWhile set = (c.sight stop).takeWhile set :=
    (takeWhile_sight hset c.rest).symm
  simp only [takeWhile1, hspec, hline]
  cases hrun : (d.sight stop).takeWhile set with
  | nil => exact .miss
  | cons x xs =>
    refine .ok _ ?_
    rw [hline, ← hrun]
    exact (List.takeWhile_prefix _).length_le

/-- A single character that does not stop the sight is read in it. -/
theorem ofSight_satisfy (hset : ∀ x, set x → stop x = false) (what : String) :
    OfSight stop (satisfy set what : Parser σ _) := by
  have hspec (c : Cursor) (j : σ) : satisfy set what c j =
      ((c.sight stop).head?.filter set).elim (.miss c.index [what] j) (.ok · (c.skip 1) j) := by
    rw [satisfy, Cursor.sight]
    cases hrest : c.rest with
    | nil => rfl
    | cons x xs =>
      cases hx : stop x with
      | false =>
        rw [List.takeWhile_cons_of_pos (by simp [hx]), List.head?_cons, Option.filter_some]
        by_cases h : set x <;> simp [h]
      | true =>
        have hset' : ¬set x := fun h => by simp [hset x h] at hx
        rw [List.takeWhile_cons_of_neg (by simp [hx])]
        exact if_neg hset'
  intro c d j k hline
  rw [hspec, hspec, ← hline]
  cases hx : (c.sight stop).head?.filter set with
  | none => exact .miss
  | some x =>
    refine .ok x (List.length_pos_iff.2 fun hnil => ?_)
    rw [hnil] at hx
    cases hx

/-- Text without a stop is ahead if it is in sight. -/
theorem isPrefixOf_sight {w : List Char} (hw : w.all (!stop ·)) (c : Cursor) :
    w.isPrefixOf (c.sight stop) = w.isPrefixOf c.rest := by
  obtain ⟨ys, hrest, -⟩ := c.rest_eq_sight stop
  rw [Bool.eq_iff_iff, List.isPrefixOf_iff_prefix, List.isPrefixOf_iff_prefix]
  refine ⟨fun h => h.trans (hrest ▸ List.prefix_append _ _), fun ⟨zs, hzs⟩ => ?_⟩
  rw [Cursor.sight, ← hzs, List.takeWhile_append_of_pos (List.all_eq_true.1 hw)]
  exact List.prefix_append _ _

/-- What some text starts with is not longer than it. -/
theorem length_le_of_isPrefixOf {w xs : List Char} (h : w.isPrefixOf xs) : w.length ≤ xs.length :=
  (List.isPrefixOf_iff_prefix.1 h).length_le

/-- A spelling without a stop is read in sight. -/
theorem ofSight_tag {text : String} (h : text.toList.all (!stop ·)) :
    OfSight stop (tag text : Parser σ _) := by
  intro c d j k hline
  simp only [tag, ← isPrefixOf_sight h, ← hline]
  split
  · rename_i hpre
    refine .ok _ ?_
    rw [← String.length_toList]
    exact length_le_of_isPrefixOf hpre
  · exact .miss

/-- A word is read in sight if no word character stops it. -/
theorem ofSight_keyword (hname : ∀ x, Text.isWord x → stop x = false) {word : String}
    (h : word.toList.all (!stop ·)) : OfSight stop (keyword word : Parser σ _) := by
  -- Behind the word something else is in sight, or there is no character of a name.
  have hspec (c : Cursor) : (word.toList.isPrefixOf c.rest &&
      !((c.rest.drop word.length).head?.any Text.isWord)) =
        (word.toList.isPrefixOf (c.sight stop) &&
          !(((c.sight stop).drop word.length).head?.any Text.isWord)) := by
    rw [isPrefixOf_sight h]
    cases hpre : word.toList.isPrefixOf c.rest with
    | false => rfl
    | true =>
      rw [← isPrefixOf_sight h] at hpre
      have hle := length_le_of_isPrefixOf hpre
      rw [String.length_toList] at hle
      obtain ⟨ys, hrest, hys⟩ := c.rest_eq_sight stop
      rw [hrest, List.drop_append_of_le_length hle]
      cases hdrop : (c.sight stop).drop word.length with
      | cons x xs => rfl
      | nil =>
        cases ys with
        | nil => rfl
        | cons y ys =>
          have hy : Text.isWord y = false := Bool.eq_false_iff.2 fun hword => by
            simpa [hys y rfl] using hname y hword
          simp [hy]
  intro c d j k hline
  simp only [keyword, hspec, ← hline]
  split
  · rename_i hpre
    refine .ok _ ?_
    rw [← String.length_toList]
    exact length_le_of_isPrefixOf (Bool.and_eq_true_iff.1 hpre).1
  · exact .miss

/-- What follows a run of characters in sight is in sight as well. -/
theorem drop_sight {w xs ys : List Char} (h : xs = w ++ ys) (hw : ∀ x ∈ w, stop x = false) :
    (xs.takeWhile (!stop ·)).drop w.length = ys.takeWhile (!stop ·) := by
  rw [h, List.takeWhile_append_of_pos fun x hx => by simp [hw x hx], List.drop_left]

section

variable (hnumeric : ∀ x, isNumeric x → stop x = false)

include hnumeric

/-- The digits of a number are in sight. -/
theorem digitRun_sight (xs : List Char) :
    digitRun (xs.takeWhile (!stop ·)) = digitRun xs := by
  have hhead : (xs.takeWhile (!stop ·)).head?.any Char.isDigit =
      xs.head?.any Char.isDigit := by
    cases xs with
    | nil => rfl
    | cons x xs =>
      cases hx : stop x with
      | false => rw [List.takeWhile_cons_of_pos (by simp [hx])]; rfl
      | true =>
        have hdigit : x.isDigit = false := Bool.eq_false_iff.2 fun hdigit => by
          simpa [hx] using hnumeric x (by simp [isNumeric, hdigit])
        rw [List.takeWhile_cons_of_neg (by simp [hx])]
        simp [hdigit]
  rw [digitRun, digitRun, hhead, takeWhile_sight fun x hx => hnumeric x ?_]
  simp only [Bool.or_eq_true] at hx
  rcases hx with hx | hx <;> simp [isNumeric, hx]

/-- A sign is split off the same way in sight. -/
theorem signed_sight (xs : List Char) : signed (xs.takeWhile (!stop ·)) =
    ((signed xs).1, (signed xs).2.takeWhile (!stop ·)) := by
  cases xs with
  | nil => rfl
  | cons x xs =>
    cases hx : stop x with
    | false =>
      rw [List.takeWhile_cons_of_pos (by simp [hx]), signed, signed]
      split
      · rfl
      · rw [List.takeWhile_cons_of_pos (by simp [hx])]
    | true =>
      have hsign : (x = '+' || x = '-') = false := Bool.eq_false_iff.2 fun hsign => by
        rw [Bool.or_eq_true, decide_eq_true_eq, decide_eq_true_eq] at hsign
        rcases hsign with rfl | rfl
        · simp [hnumeric '+' (by decide)] at hx
        · simp [hnumeric '-' (by decide)] at hx
      rw [List.takeWhile_cons_of_neg (by simp [hx]), signed, signed, hsign,
        if_neg Bool.false_ne_true, List.takeWhile_cons_of_neg (by simp [hx])]

/-- A numeral is recognized in sight, since nothing in it stops the sight. -/
theorem numeral?_sight (xs : List Char) :
    numeral? (xs.takeWhile (!stop ·)) = numeral? xs := by
  rw [numeral?_signed, numeral?_signed, signed_sight hnumeric]
  generalize signed xs = parts
  obtain ⟨sign, body⟩ := parts
  obtain ⟨ys, hbody, hrun⟩ := digitRun_eq body
  have hdrop := drop_sight hbody fun x hx => hnumeric x (hrun x hx)
  have hdrop' : body.drop (digitRun body).length = ys := by
    conv => lhs; arg 2; rw [hbody]
    exact List.drop_left
  dsimp only
  rw [digitRun_sight hnumeric, hdrop, hdrop']
  split
  · rfl
  · cases ys with
    | nil => rfl
    | cons y ys =>
      by_cases hy : y = '.'
      · subst hy
        rw [List.takeWhile_cons_of_pos (by simp [hnumeric '.' (by decide)])]
        simp only [digitRun_sight hnumeric]
      · cases hb : stop y with
        | false =>
          rw [List.takeWhile_cons_of_pos (by simp [hb])]
          simp [hy]
        | true =>
          rw [List.takeWhile_cons_of_neg (by simp [hb])]
          simp [hy]

/-- A number is read in sight. -/
theorem ofSight_number : OfSight stop (number : Parser σ _) := by
  intro c d j k hline
  have hspec (c : Cursor) : numeral? c.rest = numeral? (c.sight stop) :=
    (numeral?_sight hnumeric c.rest).symm
  simp only [number, hspec, ← hline]
  cases hnumeral : numeral? (c.sight stop) with
  | none => exact .miss
  | some numeral =>
    dsimp only
    split
    · refine .ok _ ?_
      obtain ⟨ys, hys, -⟩ := numeral?_eq hnumeral
      rw [hys, List.length_append]
      exact Nat.le_add_right _ _
    · exact .miss

end

/-- An operator is read in sight. -/
theorem ofSight_symbol (hname : ∀ x, Text.isWord x → stop x = false) {spelling : String}
    (h : spelling.toList.all (!stop ·)) : OfSight stop (symbol spelling : Parser σ _) := by
  rw [symbol]
  split
  · exact ofSight_keyword hname h
  · exact ofSight_tag h

/-- A word lies on one line. -/
theorem ofLine_keyword {word : String} (h : word.toList.all (!Text.isBreak ·)) :
    OfLine (keyword word : Parser σ _) :=
  ofSight_keyword (fun _ => not_isBreak_of_class (by decide) (by decide)) h

end

/-! ## The end of the source -/

/-- At the end of the source the parser misses. -/
def Starved (p : Parser σ α) : Prop :=
  ∀ ⦃c⦄ j, c.rest = [] → ∃ i e j', p c j = .miss i e j'

/-- What has to take a character fails at the end of the source. -/
theorem Takes.starved {p : Parser σ α} (h : Takes p) : Starved p := by
  intro c j hrest
  have hc : Cursor.Below 1 c := by simp [Cursor.Below, c.remaining_eq, hrest, byteSize]
  have hwalk := h (fun _ => False) c 0 j (.refl c) hc
  cases hr : p c j with
  | ok a c' j' =>
    rw [hr] at hwalk
    exact absurd hwalk.2.2 (Nat.not_lt_zero _)
  | miss i e j' => exact ⟨_, _, _, rfl⟩
  | fatal i x j' =>
    rw [hr] at hwalk
    exact hwalk.2.elim

namespace Starved

variable {p q : Parser σ α}

/-- What starts with a starved parser is starved. -/
theorem bind {f : α → Parser σ β} (hp : Starved p) : Starved (p >>= f) := fun c j hrest => by
  obtain ⟨i, e, j', hr⟩ := hp j hrest
  exact ⟨i, e, j', by rw [bind_apply, hr]; rfl⟩

/-- Where nothing is taken before. -/
theorem after {s : Parser σ β} {f : β → Parser σ α}
    (hs : ∀ c j, c.rest = [] → ∃ b, s c j = .ok b c j) (hf : ∀ b, Starved (f b)) :
    Starved (s >>= f) := fun c j hrest => by
  obtain ⟨b, hr⟩ := hs c j hrest
  obtain ⟨i, e, j', hb⟩ := hf b j hrest
  exact ⟨i, e, j', by rw [bind_apply, hr]; exact hb⟩

/-- The answer of a starved parser may be mapped. -/
theorem map {f : α → β} (hp : Starved p) : Starved (f <$> p) := hp.bind

/-- An alternative of two starved parsers is starved. -/
theorem orElse (hp : Starved p) (hq : Starved q) : Starved (p <|> q) := fun c j hrest => by
  obtain ⟨i, e, j', hr⟩ := hp j hrest
  obtain ⟨i', e', j'', hr'⟩ := hq j hrest
  refine ⟨c.index, Failure.union e e', j, ?_⟩
  change Parser.orElse p q c j = _
  rw [Parser.orElse, hr]
  dsimp only
  rw [hr']

/-- A starved parser is so at its own column too. -/
theorem atOwnIndent (hp : Starved p) : Starved (Parser.atOwnIndent p) := fun c j hrest => by
  have hown : (c.withReference c.here).rest = [] := hrest
  obtain ⟨i, e, j', hr⟩ := hp j hown
  exact ⟨i, e, j', by rw [Parser.atOwnIndent, hr]⟩

end Starved

/-- At the end of the source a run is empty. -/
theorem takeWhile_of_end {set : Char → Bool} (c : Cursor) (j : σ) (h : c.rest = []) :
    ∃ cs, takeWhile set c j = .ok cs c j :=
  ⟨[], by simp [takeWhile, h]⟩

/-- At the end of the source an offset is still answered. -/
theorem position_of_end (c : Cursor) (j : σ) (_ : c.rest = []) :
    ∃ i, (position : Parser σ Nat) c j = .ok i c j :=
  ⟨_, rfl⟩

end Parser

end Dialogue
