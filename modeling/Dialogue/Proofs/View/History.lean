import Dialogue.View
import Mathlib.Data.List.DropRight
import Mathlib.Data.List.SplitBy

/-!
# The history of a view

What a view shows can be told from its *history*, the changes that were made to it.

Its lines tell what was said since they were last replaced or removed (`View.remarks`). Remarks of
one speaker that follow each other are one line (`View.lineOf`), so neighbouring lines are of
different speakers. Its choices were offered since they were last removed (`View.offers`), each with
the prompt that was offered last. Neither depends on what was done to the other (`View.of_history`).
-/

namespace Dialogue

namespace View

/-- Texts with single spaces between them. Empty ones do not count. -/
def spaced (ts : List String) : String := " ".intercalate (ts.filter (· ≠ ""))

/-- Several remarks of one speaker in one line. -/
def lineOf (run : List Line) : Line := ⟨run.head?.bind Line.speaker, spaced (run.map Line.text)⟩

/-- A change of a view. -/
inductive Change where
  /-- One line is shown in place of all. -/
  | say (speaker : Option String) (text : String)
  /-- A text is added to the lines. -/
  | append (speaker : Option String) (text : String)
  /-- A choice is added, or its prompt is changed. -/
  | offer (id text : String)
  /-- Lines, choices or both are removed. -/
  | clear (kind : ClearKind)

namespace Change

/-- The view after the change. -/
def apply (v : View) : Change → View
  | say speaker text => v.say speaker text
  | append speaker text => v.append speaker text
  | offer id text => v.offer id text
  | clear kind => v.clear kind

/-- What is said. -/
def remark? : Change → Option Line
  | say speaker text => some ⟨speaker, text⟩
  | append speaker text => some ⟨speaker, text⟩
  | _ => none

/-- What is offered. -/
def offer? : Change → Option Offer
  | offer id text => some ⟨id, text⟩
  | _ => none

/-- Are all lines from before gone? -/
def endsLines : Change → Bool
  | say _ _ | clear .all | clear .dialog => true
  | _ => false

/-- Are all choices from before gone? -/
def endsChoices : Change → Bool
  | clear .all | clear .choices => true
  | _ => false

/-- Is this a change of lines? -/
def ofLines : Change → Bool
  | say _ _ | append _ _ | clear .all | clear .dialog => true
  | _ => false

/-- Is this a change of choices? -/
def ofChoices : Change → Bool
  | offer _ _ | clear .all | clear .choices => true
  | _ => false

end Change

/-- The view after several changes. -/
def after (v : View) (xs : List Change) : View := xs.foldl Change.apply v

/-- The changes from the last one of a kind on, this one included, or else all of them. -/
def since (kind : Change → Bool) (xs : List Change) : List Change :=
  (xs.rdropWhile (!kind ·)).getLast?.toList ++ xs.rtakeWhile (!kind ·)

/-- What was said since the lines were last replaced or removed. -/
def remarks (xs : List Change) : List Line := (since Change.endsLines xs).filterMap Change.remark?

/-- What was offered since the choices were last removed. -/
def offers (xs : List Change) : List Offer :=
  (since Change.endsChoices xs).filterMap Change.offer?

variable {x : Change} {xs : List Change} {v w : View}

/-- The last change is made to the view behind all others. -/
theorem after_concat (v : View) (xs : List Change) (x : Change) :
    v.after (xs ++ [x]) = x.apply (v.after xs) := by
  rw [after, List.foldl_append]
  rfl

/-- A change of the kind is the first one that counts. -/
theorem since_concat (kind : Change → Bool) (xs : List Change) (x : Change) :
    since kind (xs ++ [x]) = if kind x then [x] else since kind xs ++ [x] := by
  rw [since, List.rdropWhile_concat, List.rtakeWhile_concat]
  cases kind x
  · exact (List.append_assoc ..).symm
  · rw [Bool.not_true, if_neg Bool.false_ne_true, if_neg Bool.false_ne_true, List.getLast?_concat]
    rfl

/-- The last change ends the remarks before it, or adds one to them. -/
theorem remarks_concat (xs : List Change) (x : Change) :
    remarks (xs ++ [x]) = (if x.endsLines then [] else remarks xs) ++ x.remark?.toList := by
  rw [remarks, since_concat]
  split
  · cases x <;> rfl
  · rw [List.filterMap_append, remarks]
    cases x <;> rfl

/-- The last change ends the offers before it, or adds one to them. -/
theorem offers_concat (xs : List Change) (x : Change) :
    offers (xs ++ [x]) = (if x.endsChoices then [] else offers xs) ++ x.offer?.toList := by
  rw [offers, since_concat]
  split
  · cases x <;> rfl
  · rw [List.filterMap_append, offers]
    cases x <;> rfl

/-! ## Lines -/

/-- Adds a remark to the end of the lines. -/
def addRemark (ls : List Line) (r : Line) : List Line := appendLine r.speaker r.text ls

/-- The lines are what the remarks add up to. -/
theorem lines_after (xs : List Change) :
    (empty.after xs).lines = (remarks xs).foldl addRemark [] := by
  induction xs using List.reverseRecOn with
  | nil => rfl
  | append_singleton xs x ih =>
    rw [after_concat, remarks_concat, List.foldl_append]
    cases x with
    | say speaker text => rfl
    | append speaker text => exact congrArg (appendLine speaker text) ih
    | offer id text => exact ih
    | clear kind =>
      cases kind with
      | all | dialog => rfl
      | choices => exact ih

/-- Only the last line may go on. -/
theorem appendLine_concat (speaker : Option String) (text : String) (ls : List Line) (l : Line) :
    appendLine speaker text (ls ++ [l]) =
      ls ++ if l.speaker = speaker then [⟨speaker, joined l.text text⟩]
        else [l, ⟨speaker, text⟩] := by
  induction ls with
  | nil => rw [List.nil_append, appendLine, List.nil_append]
  | cons k ls ih =>
    rw [List.cons_append, appendLine, ih, List.cons_append]
    exact List.append_ne_nil_of_right_ne_nil _ (List.cons_ne_nil _ _)

/-- A remark of another speaker is a line of its own. -/
theorem appendLine_of_ne {speaker : Option String} {ls : List Line}
    (h : ∀ l ∈ ls.getLast?, l.speaker ≠ speaker) (text : String) :
    appendLine speaker text ls = ls ++ [⟨speaker, text⟩] := by
  rcases List.eq_nil_or_concat' ls with rfl | ⟨ls, l, rfl⟩
  · rfl
  · rw [appendLine_concat, if_neg (h l (by simp)), List.append_assoc]
    rfl

/-- Texts with spaces between them are empty only if there are none. -/
theorem intercalate_eq_empty {ts : List String} (hts : ∀ t ∈ ts, t ≠ "")
    (h : " ".intercalate ts = "") : ts = [] := by
  match ts with
  | [] => rfl
  | [t] => exact absurd h (hts t List.mem_cons_self)
  | t :: u :: ts =>
    rw [String.intercalate_cons_cons] at h
    simp at h

/-- A single text needs no space. -/
theorem spaced_singleton (t : String) : spaced [t] = t := by
  by_cases ht : t = ""
  · rw [ht]
    rfl
  · rw [spaced, List.filter_cons_of_pos (by simpa using ht)]
    rfl

/-- Adding a text to a line is putting it behind the texts that are there. -/
theorem joined_spaced (ts : List String) (t : String) :
    joined (spaced ts) t = spaced (ts ++ [t]) := by
  by_cases ht : t = ""
  · simp [joined, spaced, ht]
  have hlast : [t].filter (· ≠ "") = [t] := List.filter_cons_of_pos (by simpa using ht)
  rw [joined, spaced, spaced, List.filter_append, hlast]
  by_cases hnone : ts.filter (· ≠ "") = []
  · rw [hnone]
    rfl
  have hfirst : " ".intercalate (ts.filter (· ≠ "")) ≠ "" := fun h =>
    hnone (intercalate_eq_empty (fun t ht => by simpa using (List.mem_filter.1 ht).2) h)
  rw [String.intercalate_append_of_ne_nil hnone (List.cons_ne_nil t []),
    String.intercalate_singleton, if_neg (by simp only [hfirst, ht]; decide)]

section

variable {run more : List Line} {s : Option String}

/-- The line of a run has the speaker of its remarks. -/
theorem speaker_lineOf (hrun : run ≠ []) (hs : ∀ r ∈ run, r.speaker = s) :
    (lineOf run).speaker = s := by
  obtain ⟨r, rs, rfl⟩ := List.exists_cons_of_ne_nil hrun
  exact hs r List.mem_cons_self

/-- A line goes on with more remarks of its speaker. -/
theorem foldl_more (hrun : run ≠ []) (hs : ∀ r ∈ run ++ more, r.speaker = s) (ls : List Line) :
    more.foldl addRemark (ls ++ [lineOf run]) = ls ++ [lineOf (run ++ more)] := by
  induction more generalizing run with
  | nil =>
    rw [List.append_nil]
    rfl
  | cons r more ih =>
    have happend : run ++ r :: more = run ++ [r] ++ more := by simp
    rw [happend] at hs ⊢
    have hrun' : run ++ [r] ≠ [] := List.append_ne_nil_of_left_ne_nil hrun _
    have hfirst := speaker_lineOf hrun' fun q hq => hs q (List.mem_append_left _ hq)
    have hspeaker := speaker_lineOf hrun fun q hq => hs q (by simp [hq])
    have hr : r.speaker = s := hs r (by simp)
    have htext : joined (lineOf run).text r.text = (lineOf (run ++ [r])).text := by
      rw [lineOf, lineOf, joined_spaced, List.map_append]
      rfl
    have hstep : addRemark (ls ++ [lineOf run]) r = ls ++ [lineOf (run ++ [r])] := by
      rw [addRemark, appendLine_concat, if_pos (hspeaker.trans hr.symm), htext, hr, ← hfirst]
    rw [List.foldl_cons, hstep, ih hrun' hs]

/-- Behind a line of another speaker a run is a line of its own. -/
theorem foldl_run (hrun : run ≠ []) (hs : ∀ r ∈ run, r.speaker = s) {ls : List Line}
    (hls : ∀ l ∈ ls.getLast?, l.speaker ≠ s) :
    run.foldl addRemark ls = ls ++ [lineOf run] := by
  obtain ⟨r, rs, rfl⟩ := List.exists_cons_of_ne_nil hrun
  have hfirst : addRemark ls r = ls ++ [lineOf [r]] := by
    rw [addRemark, appendLine_of_ne (hs r List.mem_cons_self ▸ hls), lineOf, List.map_singleton,
      spaced_singleton]
    rfl
  rw [List.foldl_cons, hfirst]
  exact foldl_more (List.cons_ne_nil r []) hs ls

end

/-- Runs of different speakers are as many lines. -/
theorem foldl_runs {runs : List (List Line)} {ls : List Line}
    (hruns : ∀ run ∈ runs, run ≠ [] ∧ ∃ s, ∀ r ∈ run, r.speaker = s)
    (h : (ls ++ runs.map lineOf).IsChain fun l m => l.speaker ≠ m.speaker) :
    runs.flatten.foldl addRemark ls = ls ++ runs.map lineOf := by
  induction runs generalizing ls with
  | nil => exact (List.append_nil ls).symm
  | cons run runs ih =>
    obtain ⟨⟨hrun, s, hs⟩, hrest⟩ := List.forall_mem_cons.1 hruns
    have hls : ∀ l ∈ ls.getLast?, l.speaker ≠ s := fun l hl => by
      rw [← speaker_lineOf hrun hs]
      exact (List.isChain_append.1 h).2.2 l hl _ (by simp)
    have happend : ls ++ (run :: runs).map lineOf =
        ls ++ [lineOf run] ++ runs.map lineOf := by simp
    rw [happend] at h ⊢
    rw [List.flatten_cons, List.foldl_append, foldl_run hrun hs hls, ih hrest h]

/-- The remarks of one speaker that follow each other. -/
def runs (xs : List Change) : List (List Line) :=
  (remarks xs).splitBy fun l m => l.speaker = m.speaker

/-- A run is not empty, and of one speaker. -/
theorem single_of_mem_runs {run : List Line} (h : run ∈ runs xs) :
    run ≠ [] ∧ ∃ s, ∀ r ∈ run, r.speaker = s := by
  have hchain := List.isChain_of_mem_splitBy h
  obtain ⟨r, rs, rfl⟩ := List.exists_cons_of_ne_nil (List.ne_nil_of_mem_splitBy h)
  have hpair : ((r :: rs).map Line.speaker).Pairwise (· = ·) :=
    List.isChain_iff_pairwise.1 <|
      (List.isChain_map _).2 <| hchain.imp fun _ _ hlm => of_decide_eq_true hlm
  rw [List.map_cons, List.pairwise_cons, List.forall_mem_map] at hpair
  refine ⟨List.cons_ne_nil r rs, r.speaker, List.forall_mem_cons.2 ⟨rfl, fun q hq => ?_⟩⟩
  exact (hpair.1 q hq).symm

/-- Neighbouring runs are of different speakers. -/
theorem isChain_runs (xs : List Change) :
    ((runs xs).map lineOf).IsChain fun l m => l.speaker ≠ m.speaker := by
  rw [List.isChain_map]
  refine (List.isChain_getLast_head_splitBy _ (remarks xs)).imp_of_mem_imp fun l m hl hm h => ?_
  obtain ⟨hl', s, hs⟩ := single_of_mem_runs hl
  obtain ⟨hm', t, ht⟩ := single_of_mem_runs hm
  obtain ⟨_, _, hne⟩ := h
  rw [speaker_lineOf hl' hs, speaker_lineOf hm' ht]
  rwa [hs _ (List.getLast_mem hl'), ht _ (List.head_mem hm'), decide_eq_false_iff_not] at hne

/-- The lines of a view are those of the runs of its remarks. -/
theorem lines_eq (xs : List Change) : (empty.after xs).lines = (runs xs).map lineOf := by
  have h : (runs xs).flatten.foldl addRemark [] = [] ++ (runs xs).map lineOf :=
    foldl_runs (fun _ => single_of_mem_runs) (isChain_runs xs)
  rw [lines_after, ← List.flatten_splitBy (fun l m : Line => l.speaker = m.speaker) (remarks xs)]
  exact h

/-! ## Choices -/

/-- Adds an offer to the choices. -/
def addOffer (os : List Offer) (o : Offer) : List Offer := offerChoice o.id o.text os

/-- The choices of a view are its offers, added one after the other. -/
theorem choices_after (xs : List Change) :
    (empty.after xs).choices = (offers xs).foldl addOffer [] := by
  induction xs using List.reverseRecOn with
  | nil => rfl
  | append_singleton xs x ih =>
    rw [after_concat, offers_concat, List.foldl_append]
    cases x with
    | say speaker text => exact ih
    | append speaker text => exact ih
    | offer id text => exact congrArg (offerChoice id text) ih
    | clear kind =>
      cases kind with
      | all | choices => rfl
      | dialog => exact ih

/-- A new element at the end is kept unless it was there. -/
theorem eraseDups_concat {α : Type} [BEq α] [LawfulBEq α] (l : List α) (a : α) :
    (l ++ [a]).eraseDups = if a ∈ l then l.eraseDups else l.eraseDups ++ [a] := by
  rw [List.eraseDups_append, List.removeAll]
  by_cases ha : a ∈ l
  · rw [if_pos ha, List.filter_cons_of_neg (by simpa using ha)]
    exact List.append_nil _
  · rw [if_neg ha, List.filter_cons_of_pos (by simpa using ha)]
    rfl

/-- Without its repetitions a list has none. -/
theorem nodup_eraseDups {α : Type} [BEq α] [LawfulBEq α] (l : List α) : l.eraseDups.Nodup := by
  induction l using List.reverseRecOn with
  | nil => exact .nil
  | append_singleton l a ih =>
    rw [eraseDups_concat]
    split
    · exact ih
    · rename_i ha
      refine List.nodup_append.2 ⟨ih, List.pairwise_singleton _ a, fun b hb c hc hbc => ha ?_⟩
      rw [← List.mem_singleton.1 hc, ← hbc]
      exact List.mem_eraseDups.1 hb

/-- A choice that is there keeps its place. -/
theorem map_id_addOffer (os : List Offer) (o : Offer) : (addOffer os o).map Offer.id =
    if o.id ∈ os.map Offer.id then os.map Offer.id else os.map Offer.id ++ [o.id] := by
  induction os with
  | nil => rfl
  | cons p os ih =>
    rw [addOffer, offerChoice]
    by_cases h : p.id = o.id
    · simp [h]
    · change (if p.id = o.id then _ else p :: addOffer os o).map Offer.id = _
      rw [if_neg h, List.map_cons, ih, List.map_cons]
      by_cases ho : o.id ∈ os.map Offer.id
      · rw [if_pos ho, if_pos (List.mem_cons_of_mem _ ho)]
      · rw [if_neg ho, if_neg (by simp [ho, Ne.symm h]), List.cons_append]

/-- Choices have the ids that were offered, each of them once. -/
theorem map_id_foldl (os : List Offer) :
    (os.foldl addOffer []).map Offer.id = (os.map Offer.id).eraseDups := by
  induction os using List.reverseRecOn with
  | nil => rfl
  | append_singleton os o ih =>
    rw [List.foldl_append, List.map_append, List.map_singleton, eraseDups_concat]
    change (addOffer _ o).map Offer.id = _
    rw [map_id_addOffer, ih]
    simp only [List.mem_eraseDups]

/-- Of the choices that are there, only the one with the same id is another one then. -/
theorem mem_addOffer {os : List Offer} {o p : Offer} (hos : (os.map Offer.id).Nodup)
    (hp : p ∈ addOffer os o) : p = o ∨ p ∈ os ∧ p.id ≠ o.id := by
  induction os with
  | nil => exact .inl (List.mem_singleton.1 hp)
  | cons q os ih =>
    rw [List.map_cons, List.nodup_cons] at hos
    change p ∈ if q.id = o.id then o :: os else q :: addOffer os o at hp
    split at hp
    · rename_i hq
      refine (List.mem_cons.1 hp).imp_right fun hp => ⟨List.mem_cons_of_mem q hp, fun hid => ?_⟩
      exact hos.1 (hq.trans hid.symm ▸ List.mem_map_of_mem hp)
    · rename_i hq
      rcases List.mem_cons.1 hp with rfl | hp
      · exact .inr ⟨List.mem_cons_self, hq⟩
      · exact (ih hos.2 hp).imp_right fun ⟨hp, hne⟩ => ⟨List.mem_cons_of_mem q hp, hne⟩

/-- The offer is the last one of its id. -/
def Latest (os : List Offer) (o : Offer) : Prop :=
  ∃ before later, os = before ++ o :: later ∧ ∀ p ∈ later, p.id ≠ o.id

/-- A choice has the prompt that was offered last. -/
theorem latest_of_mem (os : List Offer) : ∀ o ∈ os.foldl addOffer [], Latest os o := by
  induction os using List.reverseRecOn with
  | nil => exact List.forall_mem_nil _
  | append_singleton os o ih =>
    intro p hp
    rw [List.foldl_append] at hp
    rcases mem_addOffer (map_id_foldl os ▸ nodup_eraseDups _) hp with rfl | ⟨hp, hne⟩
    · exact ⟨os, [], rfl, List.forall_mem_nil _⟩
    · obtain ⟨before, later, rfl, hlater⟩ := ih p hp
      refine ⟨before, later ++ [o], by simp, ?_⟩
      exact List.forall_mem_append.2 ⟨hlater, List.forall_mem_singleton.2 hne.symm⟩

/-! ## Lines and choices apart -/

/-- A part of the view that is the same whatever is done to the other one. -/
theorem after_filter {α : Type} {part : View → α} {kind : Change → Bool}
    (hpart : ∀ v w x, part v = part w →
      part (x.apply v) = if kind x then part (x.apply w) else part w)
    (h : part v = part w) (xs : List Change) :
    part (v.after xs) = part (w.after (xs.filter kind)) := by
  induction xs generalizing v w with
  | nil => exact h
  | cons x xs ih =>
    have hx := hpart v w x h
    rw [List.filter_cons]
    split at hx
    · rename_i hkind
      rw [if_pos hkind]
      exact ih hx
    · rename_i hkind
      rw [if_neg hkind]
      exact ih hx

/-- What a change makes of the lines depends on the lines only. -/
theorem lines_apply (v w : View) (x : Change) (h : v.lines = w.lines) :
    (x.apply v).lines = if x.ofLines then (x.apply w).lines else w.lines := by
  cases x with
  | say speaker text => rfl
  | append speaker text => exact congrArg (appendLine speaker text) h
  | offer id text => exact h
  | clear kind =>
    cases kind with
    | all | dialog => rfl
    | choices => exact h

/-- What a change makes of the choices depends on the choices only. -/
theorem choices_apply (v w : View) (x : Change) (h : v.choices = w.choices) :
    (x.apply v).choices = if x.ofChoices then (x.apply w).choices else w.choices := by
  cases x with
  | say speaker text => exact h
  | append speaker text => exact h
  | offer id text => exact congrArg (offerChoice id text) h
  | clear kind =>
    cases kind with
    | all | choices => rfl
    | dialog => exact h

/-- What a view shows is told by its history. Each run of remarks of one speaker is a line, and
    neighbouring lines are of different speakers. The choices are in the order of their first offer,
    no two with the same id, and each is the latest offer of its id. To the lines it does not matter
    what was done to the choices, nor to the choices what was done to the lines. -/
theorem of_history (xs : List Change) :
    (empty.after xs).lines = (runs xs).map lineOf ∧
    (empty.after xs).lines.IsChain (fun l m => l.speaker ≠ m.speaker) ∧
    (empty.after xs).choices.map Offer.id = ((offers xs).map Offer.id).eraseDups ∧
    ((empty.after xs).choices.map Offer.id).Nodup ∧
    (∀ o ∈ (empty.after xs).choices, Latest (offers xs) o) ∧
    (empty.after xs).lines = (empty.after (xs.filter Change.ofLines)).lines ∧
    (empty.after xs).choices = (empty.after (xs.filter Change.ofChoices)).choices := by
  -- An offer with a new text does not touch the ids, so they are those that were offered, once
  -- each.
  have hids : (empty.after xs).choices.map Offer.id = ((offers xs).map Offer.id).eraseDups := by
    rw [choices_after, map_id_foldl]
  refine ⟨lines_eq xs, ?_, hids, hids ▸ nodup_eraseDups _, ?_, ?_, ?_⟩
  · rw [lines_eq]
    exact isChain_runs xs
  · rw [choices_after]
    exact latest_of_mem (offers xs)
  · exact after_filter lines_apply rfl xs
  · exact after_filter choices_apply rfl xs

/-- A choice that is offered again has its latest prompt. -/
theorem of_history_again :
    (⟨"a", "Again"⟩ : Offer) ∈ (empty.after [.say (some "alice") "Hello", .offer "a" "A",
      .append (some "alice") "", .offer "b" "B", .offer "a" "Again"]).choices ∧
    Latest [⟨"a", "A"⟩, ⟨"b", "B"⟩, ⟨"a", "Again"⟩] ⟨"a", "Again"⟩ :=
  ⟨by decide, (of_history [.say (some "alice") "Hello", .offer "a" "A",
    .append (some "alice") "", .offer "b" "B", .offer "a" "Again"]).2.2.2.2.1 _ (by decide)⟩

end View

end Dialogue
