import Dialogue.Proofs.Parser.Misses
import Dialogue.Proofs.Parser.Writer

/-!
# Accepted paths

Where a plan answers, only some of the parts that were run are *accepted*: not an alternative
that is given up, not what is only looked at, and not what is gone back behind. `Plan.Path`
tells the accepted parts from one place to another, with the entries that they add, one after
the other.

If the leaves of a plan write, the entries that it adds are those of its accepted path, no
more and no less (`Plan.path_iff`).
-/

namespace Dialogue

variable {ε α β : Type}

/-! ## Accepted paths -/

namespace Plan

/-- The plan answers at a place. -/
def Applies (t : Plan (List ε) α) (c : Cursor) : Prop := ∃ a c' w, t.parser c [] = .ok a c' w

/-- The plan does not apply at a place. -/
def Misses (t : Plan (List ε) α) (c : Cursor) : Prop := ∃ i e w, t.parser c [] = .miss i e w

end Plan

mutual

/-- The parts of a plan that are accepted from a place to another one, with the value that the
    plan answers and the entries that these parts add. -/
inductive Plan.Path :
    {α : Type} → Plan (List ε) α → Cursor → α → Cursor → List ε → Prop
  | leaf {α : Type} {p : Parser (List ε) α} {c a c' w} (h : p c [] = .ok a c' w) :
    Plan.Path (.leaf p) c a c' w
  | delayed {α : Type} {make : Cursor → Plan (List ε) α} {c a c' w}
    (h : (make c).Path c a c' w) : Plan.Path (.delayed make) c a c' w
  | bind {α β : Type} {p : Plan (List ε) α} {f : α → Plan (List ε) β} {c a c' w b c'' w'}
    (hp : p.Path c a c' w) (hf : (f a).Path c' b c'' w') :
    Plan.Path (.bind p f) c b c'' (w ++ w')
  | orElse_left {α : Type} {p q : Plan (List ε) α} {c a c' w} (hp : p.Path c a c' w) :
    Plan.Path (.orElse p q) c a c' w
  | orElse_right {α : Type} {p q : Plan (List ε) α} {c a c' w} (hp : p.Misses c)
    (hq : q.Path c a c' w) : Plan.Path (.orElse p q) c a c' w
  | many_next {α : Type} {p : Plan (List ε) α} {owed c a c' w as c'' w'}
    (hp : p.Path c a c' w) (h : c'.remaining < c.remaining)
    (hrest : Plan.Path (.many p (owed - 1)) c' as c'' w') :
    Plan.Path (.many p owed) c (a :: as) c'' (w ++ w')
  -- An item that takes nothing is the last one.
  | many_last {α : Type} {p : Plan (List ε) α} {owed c a c' w} (hp : p.Path c a c' w)
    (h : ¬c'.remaining < c.remaining) : Plan.Path (.many p owed) c [a] c' w
  | many_end {α : Type} {p : Plan (List ε) α} {c} (hp : p.Misses c) :
    Plan.Path (.many p 0) c [] c []
  | manyTill_next {α β : Type} {p : Plan (List ε) α} {stop : Plan (List ε) β}
    {c a c' w as c'' w'} (hs : stop.Misses c) (hp : p.Path c a c' w)
    (h : c'.remaining < c.remaining) (hrest : Plan.Path (.manyTill p stop) c' as c'' w') :
    Plan.Path (.manyTill p stop) c (a :: as) c'' (w ++ w')
  | manyTill_end {α β : Type} {p : Plan (List ε) α} {stop : Plan (List ε) β} {c}
    (hs : stop.Applies c) : Plan.Path (.manyTill p stop) c [] c []
  -- What lets a block go on is accepted with its entries, but takes nothing.
  | block_next {α β : Type} {item : Plan (List ε) α} {continues : Plan (List ε) β}
    {owed c a c' w b c'' w' as c₃ w''} (hi : item.line.Path c a c' w) (he : c'.atEnd = false)
    (hc : continues.Path (c'.skipWhile Text.isBlank) b c'' w')
    (h : (c'.skipWhile Text.isBlank).remaining < c.remaining)
    (hrest : Plan.Path (.block item continues (owed - 1)) (c'.skipWhile Text.isBlank) as c₃ w'') :
    Plan.Path (.block item continues owed) c (a :: as) c₃ (w ++ w' ++ w'')
  | block_last {α β : Type} {item : Plan (List ε) α} {continues : Plan (List ε) β}
    {owed c a c' w} (hi : item.line.Path c a c' w) (he : c'.atEnd) :
    Plan.Path (.block item continues owed) c [a] c' w
  | block_end {α β : Type} {item : Plan (List ε) α} {continues : Plan (List ε) β}
    {owed c a c' w} (hi : item.line.Path c a c' w) (he : c'.atEnd = false)
    (hc : continues.Misses (c'.skipWhile Text.isBlank)) (ho : owed ≤ 1) :
    Plan.Path (.block item continues owed) c [a] c' w
  | optional_some {α : Type} {p : Plan (List ε) α} {c a c' w} (hp : p.Path c a c' w) :
    Plan.Path (.optional p) c (some a) c' w
  | optional_none {α : Type} {p : Plan (List ε) α} {c} (hp : p.Misses c) :
    Plan.Path (.optional p) c none c []
  | filter {α : Type} {accepts : α → Bool} {what : String} {p : Plan (List ε) α} {c a c' w}
    (hp : p.Path c a c' w) (ha : accepts a) : Plan.Path (.filter accepts what p) c a c' w
  | chainRest_next {α : Type} {operand : Plan (List ε) α} {operator : Plan (List ε) (α → α → α)}
    {acc c acc' c' w a c'' w'} (hs : (operand.link operator acc).Path c acc' c' w)
    (h : c'.remaining < c.remaining)
    (hrest : Plan.Path (.chainRest operand operator acc') c' a c'' w') :
    Plan.Path (.chainRest operand operator acc) c a c'' (w ++ w')
  | chainRest_end {α : Type} {operand : Plan (List ε) α} {operator : Plan (List ε) (α → α → α)}
    {acc c} (hs : (operand.link operator acc).Misses c) :
    Plan.Path (.chainRest operand operator acc) c acc c []
  | lookAhead {α : Type} {p : Plan (List ε) α} {c} (hp : p.Applies c) :
    Plan.Path (.lookAhead p) c () c []
  | notFollowedBy {α : Type} {p : Plan (List ε) α} {what : String} {c} (hp : p.Misses c) :
    Plan.Path (.notFollowedBy p what) c () c []
  | wouldMatch_true {α : Type} {p : Plan (List ε) α} {c} (hp : p.Applies c) :
    Plan.Path (.wouldMatch p) c true c []
  | wouldMatch_false {α : Type} {p : Plan (List ε) α} {c} (hp : p.Misses c) :
    Plan.Path (.wouldMatch p) c false c []
  | atOwnIndent {α : Type} {p : Plan (List ε) α} {c a c' w}
    (hp : p.Path (c.withReference c.here) a c' w) :
    Plan.Path (.atOwnIndent p) c a (c'.withReference c.reference) w
  | reread_first {α : Type} {p : Plan (List ε) (Option α)} {q : Plan (List ε) α} {c a c' w}
    (hp : p.Path c (some a) c' w) : Plan.Path (.reread p q) c a c' w
  | reread_second {α : Type} {p : Plan (List ε) (Option α)} {q : Plan (List ε) α}
    {c c' w a c'' w'} (hp : p.parser c [] = .ok none c' w) (hq : q.Path c a c'' w') :
    Plan.Path (.reread p q) c a c'' w'
  | inSteps {α : Type} {s : Steps (List ε) α} {c a c' w} (h : s.Path (.start c []) a c' w) :
    Plan.Path (.inSteps s) c a c' w

/-- The steps that are accepted on a checkpoint. Going back drops the entries that were added
    after the last save. -/
inductive Steps.Path :
    {α : Type} → Steps (List ε) α → Checkpoint (List ε) → α → Cursor → List ε → Prop
  | finish {α : Type} {a : α} {t : Checkpoint (List ε)} :
    Steps.Path (.finish a) t a t.finish.1 t.finish.2
  | settle {α : Type} {a : α} {t : Checkpoint (List ε)} :
    Steps.Path (.settle a) t a t.settle.1 t.settle.2
  | run {α β : Type} {p : Plan (List ε) α} {next : α → Steps (List ε) β}
    {t : Checkpoint (List ε)} {a c w b c' w'} (hp : p.Path t.cursor a c w)
    (h : (next a).Path { t with cursor := c, journal := t.journal ++ w } b c' w') :
    Steps.Path (.run p next) t b c' w'
  | indentHere {α : Type} {next : Steps (List ε) α} {t : Checkpoint (List ε)} {a c w}
    (h : next.Path t.indentHere a c w) : Steps.Path (.indentHere next) t a c w
  | commit {α : Type} {next : Steps (List ε) α} {t : Checkpoint (List ε)} {a c w}
    (h : next.Path t.commit a c w) : Steps.Path (.commit next) t a c w
  | rollback {α : Type} {next : Steps (List ε) α} {t : Checkpoint (List ε)} {a c w}
    (h : next.Path t.rollback a c w) : Steps.Path (.rollback next) t a c w

end

/-! ## The entries of a plan are those of its accepted path -/

/-- The leaves of a line write if those of its item do. -/
theorem Plan.leaves_line_writes {item : Plan (List ε) α} (h : item.Leaves Parser.Writes) :
    item.line.Leaves Parser.Writes :=
  leaves_line (P := Parser.Writes) .blanks .newline .eof .pure h

/-- The leaves of a link write if those of operator and operand do. -/
theorem Plan.leaves_link_writes {operand : Plan (List ε) α} {operator : Plan (List ε) (α → α → α)}
    (h : operand.Leaves Parser.Writes ∧ operator.Leaves Parser.Writes) (acc : α) :
    (operand.link operator acc).Leaves Parser.Writes :=
  leaves_link (P := Parser.Writes) .pure h.1 h.2 acc

mutual

/-- A path is that of an answer with just its entries. -/
theorem Plan.Path.sound {α : Type} {t : Plan (List ε) α} {c : Cursor} {a : α} {c' : Cursor}
    {w : List ε} (h : t.Path c a c' w) : t.Leaves Parser.Writes → t.parser c [] = .ok a c' w :=
  match h with
  | .leaf h => fun _ => h
  | .delayed h => fun ht => h.sound (ht _)
  -- Paths start from an empty journal; what is noted behind others is the same, after them.
  | .bind hp hf => fun ht => by
    rw [Plan.parser, Parser.bind_apply, hp.sound ht.1]
    exact (Plan.writes _ (ht.2 _)).ok_after (hf.sound (ht.2 _)) _
  | .orElse_left hp => fun ht => by
    change Parser.orElse _ _ _ _ = _
    rw [Parser.orElse, hp.sound ht.1]
  | .orElse_right ⟨_, _, _, hp⟩ hq => fun ht => by
    change Parser.orElse _ _ _ _ = _
    rw [Parser.orElse, hp, hq.sound ht.2]
  | .many_next (p := p) hp h hrest => fun ht => by
    have hrest := ((p.writes ht).many _).ok_after (hrest.sound ht)
    rw [Plan.parser, Parser.many_next _ (hp.sound ht) h, hrest]
    rfl
  | .many_last hp h => fun ht => by
    rw [Plan.parser, Parser.many, hp.sound ht]
    exact dif_neg h
  | .many_end ⟨_, _, _, hp⟩ => fun ht => by
    rw [Plan.parser, Parser.many, hp]
    rfl
  | .manyTill_next ⟨_, _, _, hs⟩ hp h hrest => fun ht => by
    have hrest := ((Plan.writes _ ht.1).manyTill (Plan.writes _ ht.2)).ok_after (hrest.sound ht)
    rw [Plan.parser, Parser.manyTill_next hs (hp.sound ht.1) h, hrest]
    rfl
  | .manyTill_end ⟨_, _, _, hs⟩ => fun ht => by
    rw [Plan.parser, Parser.manyTill, hs]
  | .block_next hi he hc h hrest => fun ht => by
    have hi := Plan.parser_line _ ▸ hi.sound (Plan.leaves_line_writes ht.1)
    have hc := (Plan.writes _ ht.2).ok_after (hc.sound ht.2)
    have hrest := ((Plan.writes _ ht.1).block (Plan.writes _ ht.2) _).ok_after (hrest.sound ht)
    rw [Plan.parser, Parser.block_next _ hi he (hc _) h, hrest]
    rfl
  | .block_last hi he => fun ht => by
    have hi := Plan.parser_line _ ▸ hi.sound (Plan.leaves_line_writes ht.1)
    rw [Plan.parser, Parser.block, hi]
    exact if_pos he
  | .block_end hi he ⟨_, _, _, hc⟩ ho => fun ht => by
    have hi := Plan.parser_line _ ▸ hi.sound (Plan.leaves_line_writes ht.1)
    have hc := (Plan.writes _ ht.2).miss_after hc
    rw [Plan.parser, Parser.block_miss _ hi he (hc _)]
    exact if_pos ho
  | .optional_some hp => fun ht => by
    rw [Plan.parser, Parser.optional, hp.sound ht]
  | .optional_none ⟨_, _, _, hp⟩ => fun ht => by
    rw [Plan.parser, Parser.optional, hp]
  | .filter hp ha => fun ht => by
    rw [Plan.parser, Parser.filter, hp.sound ht]
    exact if_pos ha
  | .chainRest_next hs h hrest => fun ht => by
    have hs := hs.sound (Plan.leaves_link_writes ht _)
    have hrest :=
      ((Plan.writes _ ht.1).chainRest (Plan.writes _ ht.2) _).ok_after (hrest.sound ht)
    rw [Plan.parser, Parser.chainRest_next hs h, hrest]
  | .chainRest_end ⟨_, _, _, hs⟩ => fun _ => Parser.chainRest_miss hs
  | .lookAhead ⟨_, _, _, hp⟩ => fun ht => by
    rw [Plan.parser, Parser.lookAhead, hp]
  | .notFollowedBy ⟨_, _, _, hp⟩ => fun ht => by
    rw [Plan.parser, Parser.notFollowedBy, hp]
  | .wouldMatch_true ⟨_, _, _, hp⟩ => fun ht => by
    rw [Plan.parser, Parser.wouldMatch, hp]
  | .wouldMatch_false ⟨_, _, _, hp⟩ => fun ht => by
    rw [Plan.parser, Parser.wouldMatch, hp]
  | .atOwnIndent hp => fun ht => by
    rw [Plan.parser, Parser.atOwnIndent, hp.sound ht]
  | .reread_first hp => fun ht => by
    rw [Plan.parser, Parser.reread, hp.sound ht.1]
  | .reread_second hp hq => fun ht => by
    rw [Plan.parser, Parser.reread, hp]
    exact hq.sound ht.2
  | .inSteps h => fun ht => h.sound ht

/-- A path of steps is that of an answer with just its entries. -/
theorem Steps.Path.sound {α : Type} {s : Steps (List ε) α} {t : Checkpoint (List ε)} {a : α}
    {c : Cursor} {w : List ε} (h : s.Path t a c w) :
    s.Leaves Parser.Writes → s.perform t = .ok a c w :=
  match h with
  | .finish => fun _ => rfl
  | .settle => fun _ => rfl
  | .run hp h => fun ht => by
    have hp := (Plan.writes _ ht.1).ok_after (hp.sound ht.1)
    rw [Steps.perform, Checkpoint.run, hp]
    exact h.sound (ht.2 _)
  | .indentHere h => fun ht => h.sound ht
  | .commit h => fun ht => h.sound ht
  | .rollback h => fun ht => h.sound ht

end

namespace Plan

/-- Where the plan answers, there is an accepted path. -/
def Traced (t : Plan (List ε) α) : Prop :=
  ∀ ⦃c a c' w⦄, t.parser c [] = .ok a c' w → t.Path c a c' w

namespace Traced

variable {p : Plan (List ε) α}

/-- The path of a leaf is what it adds. -/
theorem of_leaf (p : Parser (List ε) α) : (Plan.leaf p).Traced := fun _ _ _ _ => .leaf

/-- Two plans have the path of the first one, and then of the second one. -/
theorem bind {f : α → Plan (List ε) β} (hp : p.Traced) (hf : ∀ a, (f a).Traced)
    (hw : ∀ a, (f a).parser.Writes) : (Plan.bind p f).Traced := by
  intro c b c'' w h
  obtain ⟨a, c', w₁, hr, h⟩ := Parser.of_bind_eq_ok h
  obtain ⟨w', hr', rfl⟩ := (hw a).exists_entries h
  exact .bind (hp hr) (hf a hr')

/-- Mapping the answer keeps the path. -/
theorem map {f : α → β} (hp : p.Traced) : (p.map f).Traced :=
  hp.bind (fun _ => .of_leaf _) fun _ => .pure _

/-- An alternative has the path of the plan that answers. -/
theorem orElse {q : Plan (List ε) α} (hp : p.Traced) (hq : q.Traced) :
    (Plan.orElse p q).Traced := by
  intro c a c' w h
  obtain h | ⟨hmiss, h⟩ := Parser.of_orElse_eq_ok h
  · exact .orElse_left (hp h)
  · exact .orElse_right hmiss (hq h)

/-- A repetition has the paths of its items. -/
theorem many (hp : p.Traced) (hw : p.parser.Writes) (owed : Nat) : (Plan.many p owed).Traced := by
  intro c
  induction hn : c.remaining using Nat.strongRecOn generalizing owed c with
  | ind n ih =>
    intro as c'' w h
    subst hn
    rw [Plan.parser, Parser.many] at h
    split at h
    · rename_i a c' w₁ hr
      split at h
      · rename_i hlt
        obtain ⟨as, hmore, rfl⟩ := Reply.of_map_eq_ok h
        obtain ⟨w, hrest, rfl⟩ := (hw.many _).exists_entries hmore
        exact .many_next (hp hr) hlt (ih _ hlt _ rfl hrest)
      · rename_i hlt
        cases h
        exact .many_last (hp hr) hlt
    · rename_i hr
      split at h
      · rename_i ho
        cases h
        subst ho
        exact .many_end ⟨_, _, _, hr⟩
      · cases h
    · cases h

/-- A repetition with a stop has the paths of its items, and that of the stop at its end. -/
theorem manyTill {stop : Plan (List ε) β} (hp : p.Traced) (hw : p.parser.Writes)
    (hs : stop.parser.Writes) : (Plan.manyTill p stop).Traced := by
  intro c
  induction hn : c.remaining using Nat.strongRecOn generalizing c with
  | ind n ih =>
    intro as c'' w h
    subst hn
    rw [Plan.parser, Parser.manyTill] at h
    split at h
    · rename_i hr
      cases h
      exact .manyTill_end ⟨_, _, _, hr⟩
    · cases h
    · rename_i hr
      split at h
      · rename_i a c' w₁ hr'
        split at h
        · rename_i hlt
          obtain ⟨as, hmore, rfl⟩ := Reply.of_map_eq_ok h
          obtain ⟨w, hrest, rfl⟩ := (hw.manyTill hs).exists_entries hmore
          exact .manyTill_next ⟨_, _, _, hr⟩ (hp hr') hlt (ih _ hlt rfl hrest)
        · cases h
      · split at h <;> cases h
      · cases h

/-- What may be missing has the path of what is there, or none. -/
theorem optional (hp : p.Traced) : (Plan.optional p).Traced := by
  intro c o c' w h
  obtain ⟨a, rfl, hr⟩ | ⟨rfl, rfl, rfl, hmiss⟩ := Parser.of_optional_eq_ok h
  · exact .optional_some (hp hr)
  · exact .optional_none hmiss

/-- What is checked has the path of what was read. -/
theorem filter {accepts : α → Bool} {what : String} (hp : p.Traced) :
    (Plan.filter accepts what p).Traced := by
  intro c a c' w h
  obtain ⟨hr, ha⟩ := Parser.of_filter_eq_ok h
  exact .filter (hp hr) ha

/-- A look ahead has no path. -/
theorem lookAhead : (Plan.lookAhead p).Traced := by
  intro c _ c' w h
  obtain ⟨rfl, rfl, hr⟩ := Parser.of_lookAhead_eq_ok h
  exact .lookAhead hr

/-- A look for what must not be there has no path. -/
theorem notFollowedBy {what : String} : (Plan.notFollowedBy p what).Traced := by
  intro c _ c' w h
  obtain ⟨rfl, rfl, hmiss⟩ := Parser.of_notFollowedBy_eq_ok h
  exact .notFollowedBy hmiss

/-- A question for what is ahead has no path. -/
theorem wouldMatch : (Plan.wouldMatch p).Traced := by
  intro c _ c' w h
  obtain ⟨rfl, rfl, ⟨rfl, hr⟩ | ⟨rfl, hmiss⟩⟩ := Parser.of_wouldMatch_eq_ok h
  · exact .wouldMatch_true hr
  · exact .wouldMatch_false hmiss

/-- A plan has the same path at its own column. -/
theorem atOwnIndent (hp : p.Traced) : (Plan.atOwnIndent p).Traced := by
  intro c a c' w h
  obtain ⟨c₁, hr, rfl⟩ := Parser.of_atOwnIndent_eq_ok h
  exact .atOwnIndent (hp hr)

/-- What is read twice has the path of the reading that is kept. -/
theorem reread {p : Plan (List ε) (Option α)} {q : Plan (List ε) α} (hp : p.Traced)
    (hq : q.Traced) : (Plan.reread p q).Traced := by
  intro c a c' w h
  rw [Plan.parser, Parser.reread] at h
  split at h
  · rename_i hr
    cases h
    exact .reread_first (hp hr)
  · rename_i hr
    exact .reread_second hr (hq h)
  · cases h
  · cases h

/-- Two plans of which the second one answers have both paths. -/
theorem keepRight {q : Plan (List ε) β} (hp : p.Traced) (hq : q.Traced)
    (hw : q.parser.Writes) : (p.keepRight q).Traced :=
  hp.bind (fun _ => hq) fun _ => hw

/-- Blank lines have a path of layout. -/
theorem blankLines : (blankLines : Plan (List ε) Unit).Traced := by
  have hblanks : (Plan.leaf Parser.blanks : Plan (List ε) _).Traced := .of_leaf _
  have hline := hblanks.keepRight (.of_leaf Parser.newline) .newline
  refine bind (many hline ?_ 0) (fun _ => ?_) fun _ => ?_
  · exact Parser.Writes.blanks.seqRight .newline
  · exact (hblanks.keepRight (.of_leaf Parser.eof) .eof).optional.map
  · exact (Parser.Writes.blanks.seqRight .eof).optional.bind fun _ => .pure _

/-- The end of a line has a path of layout. -/
theorem lineEnd : (lineEnd : Plan (List ε) Unit).Traced := by
  intro c a c' w h
  refine .delayed ?_
  replace h : (if c.atLineStart then Plan.blankLines
    else .keepRight (.leaf Parser.blanks) (.keepRight eol Plan.blankLines) :
      Plan (List ε) Unit).parser c [] = .ok a c' w := h
  split at h
  · rename_i hs
    rw [if_pos hs]
    exact blankLines h
  · rename_i hs
    rw [if_neg hs]
    refine keepRight (.of_leaf _) (keepRight (.orElse (.of_leaf _) (.of_leaf _)) blankLines ?_) ?_ h
    · exact .blankLines
    · exact (Parser.Writes.newline.orElse .eof).seqRight .blankLines

/-- A block has the paths of its items and continuations. -/
theorem block {item : Plan (List ε) α} {continues : Plan (List ε) β} (hi : item.Traced)
    (hc : continues.Traced) (hwi : item.parser.Writes) (hwc : continues.parser.Writes)
    (owed : Nat) : (Plan.block item continues owed).Traced := by
  have hwe : (Plan.lineEnd : Plan (List ε) Unit).parser.Writes := by
    rw [parser_lineEnd]
    exact .lineEnd
  have hline : item.line.Traced := hi.bind (fun _ => lineEnd.map) fun _ => hwe.bind fun _ => .pure _
  intro c
  induction hn : c.remaining using Nat.strongRecOn generalizing owed c with
  | ind n ih =>
    intro as c₃ w h
    subst hn
    rw [Plan.parser, Parser.block] at h
    split at h
    · cases h
    · cases h
    rename_i a c' w₁ hr
    have hi := hline ((congrFun (congrFun (parser_line item) c) []).trans hr)
    split at h
    · rename_i he
      cases h
      exact .block_last hi he
    rename_i he
    have he : c'.atEnd = false := Bool.eq_false_iff.2 he
    dsimp only at h
    split at h
    · rename_i hc'
      obtain ⟨w', hr', rfl⟩ := hwc.exists_entries hc'
      split at h
      · rename_i hlt
        obtain ⟨as, hmore, rfl⟩ := Reply.of_map_eq_ok h
        obtain ⟨w₂, hrest, rfl⟩ := (hwi.block hwc _).exists_entries hmore
        exact .block_next hi he (hc hr') hlt (ih _ hlt _ rfl hrest)
      · cases h
    · rename_i hr'
      split at h
      · rename_i ho
        cases h
        rw [hwc] at hr'
        cases hm : continues.parser (Cursor.skipWhile Text.isBlank _) [] <;>
          rw [hm] at hr' <;> cases hr'
        exact .block_end hi he ⟨_, _, _, hm⟩ ho
      · cases h
    · cases h

/-- A chain has the paths of its operators and operands. -/
theorem chainRest {operand : Plan (List ε) α} {operator : Plan (List ε) (α → α → α)}
    (hoperand : operand.Traced) (hoperator : operator.Traced) (hw : operand.parser.Writes)
    (hw' : operator.parser.Writes) (acc : α) : (Plan.chainRest operand operator acc).Traced := by
  have hlink acc : (operand.link operator acc).Traced :=
    hoperator.bind (fun _ => hoperand.map) fun _ => hw.bind fun _ => .pure _
  intro c
  induction hn : c.remaining using Nat.strongRecOn generalizing acc c with
  | ind n ih =>
    intro a c'' w h
    subst hn
    rw [Plan.parser, Parser.chainRest] at h
    split at h
    · rename_i acc' c' w₁ hs
      split at h
      · rename_i hlt
        obtain ⟨w, hrest, rfl⟩ := (hw.chainRest hw' acc').exists_entries h
        exact .chainRest_next (hlink acc hs) hlt (ih _ hlt _ rfl hrest)
      · cases h
    · rename_i hs
      cases h
      exact .chainRest_end ⟨_, _, _, hs⟩
    · cases h

end Traced

end Plan

mutual

/-- Every answer of a plan over writing leaves has an accepted path. -/
theorem Plan.traced : {α : Type} → (t : Plan (List ε) α) → t.Leaves Parser.Writes → t.Traced
  | _, .leaf p, _ => .of_leaf p
  | _, .delayed make, h => fun c _ _ _ hr => .delayed ((make c).traced (h c) hr)
  | _, .bind p f, h =>
    (p.traced h.1).bind (fun a => (f a).traced (h.2 a)) fun a => (f a).writes (h.2 a)
  | _, .orElse p q, h => (p.traced h.1).orElse (q.traced h.2)
  | _, .many p owed, h => (p.traced h).many (p.writes h) owed
  | _, .manyTill p stop, h => (p.traced h.1).manyTill (p.writes h.1) (stop.writes h.2)
  | _, .block item continues owed, h =>
    (item.traced h.1).block (continues.traced h.2) (item.writes h.1) (continues.writes h.2) owed
  | _, .optional p, h => (p.traced h).optional
  | _, .filter _ _ p, h => (p.traced h).filter
  | _, .chainRest operand operator acc, h =>
    (operand.traced h.1).chainRest (operator.traced h.2) (operand.writes h.1)
      (operator.writes h.2) acc
  | _, .lookAhead _, _ => .lookAhead
  | _, .notFollowedBy _ _, _ => .notFollowedBy
  | _, .wouldMatch _, _ => .wouldMatch
  | _, .atOwnIndent p, h => (p.traced h).atOwnIndent
  | _, .reread p q, h => (p.traced h.1).reread (q.traced h.2)
  | _, .inSteps s, h => fun _ _ _ _ hr => .inSteps (s.traced h _ hr)

/-- Every answer of steps over writing leaves has an accepted path. -/
theorem Steps.traced : {α : Type} → (s : Steps (List ε) α) → s.Leaves Parser.Writes →
    ∀ (t : Checkpoint (List ε)) {a c w}, s.perform t = .ok a c w → s.Path t a c w
  | _, .finish _, _, t, _, _, _, h => by
    cases h
    exact .finish
  | _, .settle _, _, t, _, _, _, h => by
    cases h
    exact .settle
  | _, .run p next, h, t, _, _, _, hr => by
    rw [Steps.perform, Checkpoint.run] at hr
    cases hp : p.parser t.cursor t.journal with
    | ok a c w =>
      rw [hp] at hr
      obtain ⟨w', hp', rfl⟩ := (p.writes h.1).exists_entries hp
      exact .run (p.traced h.1 hp') ((next a).traced (h.2 a) _ hr)
    | miss i e w => rw [hp] at hr; cases hr
    | fatal i x w => rw [hp] at hr; cases hr
  | _, .indentHere next, h, t, _, _, _, hr => .indentHere (next.traced h t.indentHere hr)
  | _, .commit next, h, t, _, _, _, hr => .commit (next.traced h t.commit hr)
  | _, .rollback next, h, t, _, _, _, hr => .rollback (next.traced h t.rollback hr)

end

/-- What a plan adds where it answers is what is added on its accepted path, whatever is in the
    journal already. -/
theorem Plan.path_iff {t : Plan (List ε) α} (ht : t.Leaves Parser.Writes) {c c' : Cursor} {a : α}
    {w : List ε} : t.Path c a c' w ↔ ∀ j, t.parser c j = .ok a c' (j ++ w) := by
  constructor
  · exact fun h => (t.writes ht).ok_after (h.sound ht)
  · exact fun h => t.traced ht (h [])

end Dialogue
