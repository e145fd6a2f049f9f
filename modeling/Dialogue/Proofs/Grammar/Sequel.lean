import Dialogue.Proofs.Grammar.Opening
import Dialogue.Proofs.Grammar.Source

/-!
# Lines of a source that goes on

Each line of a source is followed where the source goes on (`follows_sequel`), with all that is
below it. Statements other than dialogue are told apart by their first words (`Worded`), and they
lie on one line, so there is nothing open behind them. Dialogue may say nothing up to the end of the
source, where it would say what comes next (`Dangling`).
-/

namespace Dialogue

open Dialogue.Parser

/-- The source ends before anything is said by the line that it ends with. -/
def Node.Dangling (source : List Char) (n : Node) : Prop := n.Mute ∧ EndsInMark source

/-- Where something else than a mark is last, something was said. -/
theorem Outline.not_endsIn_dangling {source : List Char} (h : ¬EndsInMark source) (o : Outline) :
    ¬o.EndsIn (Node.Dangling source) := by
  rintro ⟨_, -, -, hmark⟩
  exact h hmark

namespace Grammar

variable {α : Type} {registry : Registry} {base : List String} {source more : List Char}
  {m n n' : Nat} {c c' d : Cursor} {f f' : Facts} {w : String} {ws vs : List String}
  {p q p' q' : Rule α}

/-! ## Statements that are told apart by their words -/

/-- The rules answer where a line opens with one of these words, and the first one is followed by
    the second one if the source goes on. -/
structure Worded (base : List String) (source more : List Char) (m : Nat) (ws : List String)
    (p q : Rule α) : Prop where
  /-- The line opens with one of the words. -/
  opens {c c' : Cursor} {f f' : Facts} {a : α} : p c f = .ok a c' f' → ∃ w ∈ ws, Opens w c
  /-- With another word it is another statement. -/
  others {w : String} {d : Cursor} (g : Facts) : Opens w d → w ∉ ws → Misses q d g
  /-- The source may go on behind the line. -/
  follows : Follows base (Extend Region.Shuts source more m []) (p <* lineEnd) (q <* lineEnd) Eq
    (ExtendLine source more m) Never

namespace Worded

/-- Statements with different words may be alternatives. -/
theorem orElse (hp : Worded base source more m ws p q) (hp' : Worded base source more m vs p' q')
    (hdisjoint : ∀ w ∈ vs, w ∉ ws) :
    Worded base source more m (ws ++ vs) (p <|> p') (q <|> q') where
  opens h := by
    obtain h | ⟨-, h⟩ := of_orElse_eq_ok h
    · obtain ⟨w, hw, hopens⟩ := hp.opens h
      exact ⟨w, List.mem_append_left vs hw, hopens⟩
    · obtain ⟨w, hw, hopens⟩ := hp'.opens h
      exact ⟨w, List.mem_append_right ws hw, hopens⟩
  others g h hw := (hp.others g h fun hmem => hw (List.mem_append_left vs hmem)).orElse
    (hp'.others g h fun hmem => hw (List.mem_append_right ws hmem))
  follows := by
    refine hp.follows.orElse_seqLeft hp'.follows fun c d f g a c' f' hcd _ hr => ?_
    obtain ⟨_, _, _, hfirst, -⟩ := of_bind_eq_ok hr
    obtain ⟨w, hw, hopens⟩ := hp'.opens hfirst
    exact .inr (hp.others g (hopens.of_line hcd.extended.line) (hdisjoint w hw))

/-- A statement that starts with its word. -/
theorem of_word {k k' : String → Rule α} (hw : w.toList.all Text.isWord)
    (h : Follows base (Extend Region.Shuts source more m []) (keyword w >>= k) (keyword w >>= k') Eq
      (Extend Region.Shuts source more m []) Never) (hmore : Layout.AtMargin more) :
    Worded base source more m [w] (keyword w >>= k) (keyword w >>= k') where
  opens hr := by
    obtain ⟨_, _, _, hword, -⟩ := of_bind_eq_ok hr
    exact ⟨w, List.mem_singleton_self w, opens_of_keyword hword hw⟩
  others g hopens hne :=
    (hopens.misses_keyword hw (fun h => hne (h ▸ List.mem_singleton_self _)) g).bind k'
  follows := follows_lineEnd (inStep_extend hmore source) (h.mono (fun _ _ h => h) fun _ _ => .inl)

end Worded

/-- The statements of one line are told by their first words. -/
theorem worded_statements (registry : Registry) (base : List String) (source : List Char)
    (m n n' : Nat) (hmore : Layout.AtMargin more) :
    Worded base source more m ["clear", "choose", "jump", "wait", "pause", "return"]
      (clear <|> choose <|> jump <|> wait <|> pause registry (.upTo registry n) <|> leave)
      (clear <|> choose <|> jump <|> wait <|> pause registry (.upTo registry n') <|> leave) := by
  have hR := aligned_extend Region.tracks_shuts source more m
  have hword {w : String} {k : String → Node} (hw : w.toList.all Region.isPlain) :
      Follows base (Extend Region.Shuts source more m []) (k <$> keyword w : Rule Node)
        (k <$> keyword w) Eq (Extend Region.Shuts source more m []) Never :=
    .of_agree fun _ _ => (agree_keyword hR hw).map
  have hclear : Worded base source more m ["clear"] clear clear :=
    .of_word (by decide) (.of_agree fun _ _ => agree_clear hR) hmore
  have hchoose : Worded base source more m ["choose"] choose choose :=
    .of_word (by decide) (hword (by decide)) hmore
  have hjump : Worded base source more m ["jump"] jump jump :=
    .of_word (by decide) (.of_agree fun _ _ => agree_jump hR) hmore
  have hwait : Worded base source more m ["wait"] wait wait :=
    .of_word (by decide) (hword (by decide)) hmore
  have hpause : Worded base source more m ["pause"] (pause registry (.upTo registry n))
      (pause registry (.upTo registry n')) := .of_word (by decide) follows_pause hmore
  have hleave : Worded base source more m ["return"] leave leave :=
    .of_word (by decide) (hword (by decide)) hmore
  exact hclear.orElse (hchoose.orElse (hjump.orElse (hwait.orElse (hpause.orElse hleave
    (by decide)) (by decide)) (by decide)) (by decide)) (by decide)

/-- Statements other than dialogue have no heading. -/
theorem plain_statements {k : Node} {c₁ : Cursor} {f₁ : Facts}
    (h : (clear <|> choose <|> jump <|> wait <|> pause registry (.upTo registry n) <|> leave) c f =
      .ok k c₁ f₁) (hend : EndsLine c₁) (happend : Misses (append (.upTo registry n)) c f)
    (hplus : ¬PausesPlus registry c) : Plain c := by
  obtain h | ⟨-, h⟩ := of_orElse_eq_ok h
  · exact plain_clear h hend
  obtain h | ⟨-, h⟩ := of_orElse_eq_ok h
  · exact plain_word h hend (by decide) (by decide)
  obtain h | ⟨-, h⟩ := of_orElse_eq_ok h
  · exact plain_jump h
  obtain h | ⟨-, h⟩ := of_orElse_eq_ok h
  · exact plain_word h hend (by decide) (by decide)
  obtain h | ⟨-, h⟩ := of_orElse_eq_ok h
  · exact plain_pause h happend hplus
  · exact plain_word h hend (by decide) (by decide)

/-! ## Lines -/

/-- An answer may be mapped before or after the line ends. -/
theorem map_seqLeft {β γ : Type} (k : α → β) (p : Rule α) (e : Rule γ) :
    k <$> p <* e = k <$> (p <* e) := by
  simp only [seqLeft_eq_bind, map_bind, bind_map_left, map_pure]

/-- A line that is added to those before starts nothing new. -/
theorem misses_say_of_append {k : Node} (h : append (.upTo registry n) c f = .ok k c' f')
    (hline : c.line = d.line) (g : Facts) : Misses (say (.upTo registry n')) d g := by
  obtain ⟨said, c₁, f₁, hdialog, -⟩ := of_bind_eq_ok h
  rw [dialog_eq, atOwnIndent] at hdialog
  split at hdialog
  · rename_i hspoken
    obtain ⟨speaker, c₂, f₂, hheading, -⟩ := of_bind_eq_ok hspoken
    have hmiss := misses_heading_of_heading hheading (show '+' ≠ ':' by decide)
    have hown : (c.withReference c.here).line = d.line := hline
    exact (misses_dialog (by decide) ((ofLine_heading (by decide)).misses hown hmiss g)).bind _
  · rename_i hne
    exact absurd hdialog (hne _ _ _)

/-- Each statement is followed if the source goes on. -/
theorem follows_node (hmore : Layout.AtMargin more)
    (hplus : ∀ c, Starts source c → ¬PausesPlus registry c) :
    Follows base (Heads (Extend Region.Shuts source more) (Starts source) m)
      (node registry (.upTo registry n) <* lineEnd) (node registry (.upTo registry n') <* lineEnd)
      Eq (ExtendLine source more m) (Node.Dangling source) := by
  have hdialog {mark : Char} {k : Option String × Expr .text → Node}
      (hmark : mark = ':' ∨ mark = '+')
      (hk : ∀ said, said.2 = .literal (k := .text) "" → (k said).Mute) :
      Follows base (Heads (Extend Region.Shuts source more) (Starts source) m)
        (k <$> dialog (.upTo registry n) mark <* lineEnd)
        (k <$> dialog (.upTo registry n') mark <* lineEnd) Eq (ExtendLine source more m)
        (Node.Dangling source) := by
    have hline : Follows base (Heads (Extend Region.Shuts source more) (Starts source) m)
        (k <$> dialog (.upTo registry n) mark) (k <$> dialog (.upTo registry n') mark) Eq
        (ExtendLine source more m) (Node.Dangling source) :=
      (follows_dialog hmore hmark).map (fun _ _ h => congrArg k h)
        fun said h => ⟨hk said h.1, h.2⟩
    exact follows_lineEnd (inStep_extend hmore source) (hline.mono (fun _ _ h => h) fun _ _ => .inr)
  have hsay : Follows base (Heads (Extend Region.Shuts source more) (Starts source) m)
      (say (.upTo registry n) <* lineEnd) (say (.upTo registry n') <* lineEnd) Eq
      (ExtendLine source more m) (Node.Dangling source) := hdialog (.inl rfl) fun ⟨_, _⟩ h => h
  have happend : Follows base (Heads (Extend Region.Shuts source more) (Starts source) m)
      (append (.upTo registry n) <* lineEnd) (append (.upTo registry n') <* lineEnd) Eq
      (ExtendLine source more m) (Node.Dangling source) := hdialog (.inr rfl) fun ⟨_, _⟩ h => h
  have hrest := worded_statements registry base source m n n' hmore
  have hplain {c d : Cursor} {f : Facts} {k : Node} {c' : Cursor} {f' : Facts}
      (hcd : Heads (Extend Region.Shuts source more) (Starts source) m c d)
      (hmiss : Misses (append (.upTo registry n)) c f)
      (h : ((clear <|> choose <|> jump <|> wait <|> pause registry (.upTo registry n) <|> leave)
        <* lineEnd) c f = .ok k c' f') : Plain d := by
    obtain ⟨c₁, f₁, hr, hend⟩ := of_seqLeft_lineEnd h
    exact (plain_statements hr hend hmiss (hplus c hcd.2)).of_line hcd.1.extended.line
  -- A statement without a speaker is plain, so in the second source it is not taken for a dialog
  -- either.
  refine hsay.orElse_seqLeft (happend.orElse_seqLeft (hrest.follows.closed.pre fun _ _ h => h.1)
    fun c d f g k c' f' hcd hmiss h => .inr ?_) fun c d f g k c' f' hcd _ h => .inr ?_
  · exact ((hplain hcd hmiss h).misses_dialog (.inr rfl) g).bind _
  · obtain ⟨_, c₁, f₁, hfirst, hend⟩ := of_bind_eq_ok h
    obtain hok | ⟨hmiss, hok⟩ := of_orElse_eq_ok hfirst
    · exact misses_say_of_append hok hcd.1.extended.line g
    · exact ((hplain hcd hmiss ((bind_eq hok).trans hend)).misses_dialog (.inl rfl) g).bind _

/-- A line follows itself with all that is below it. -/
theorem follows_sequel (hmore : Layout.AtMargin more)
    (hplus : ∀ c, Starts source c → ¬PausesPlus registry c) (hm : 0 < m)
    (h : (Nested.upTo registry n).Follow base (Extend Region.Shuts source more)
      (ExtendLine source more) (Starts source) (Node.Dangling source) (.upTo registry n')) :
    Follows base (Heads (Extend Region.Shuts source more) (Starts source) m)
      (line registry (.upTo registry n) <* lineEnd) (line registry (.upTo registry n') <* lineEnd)
      Eq (ExtendLine source more m) (Outline.EndsIn (Node.Dangling source)) := by
  have hS := inStep_extend hmore source
  have hnode : Follows base (Heads (Extend Region.Shuts source more) (Starts source) m)
      ((Outline.node · .nil) <$> (node registry (.upTo registry n) <* lineEnd))
      ((Outline.node · .nil) <$> (node registry (.upTo registry n') <* lineEnd)) Eq
      (ExtendLine source more m) (Outline.EndsIn (Node.Dangling source)) :=
    (follows_node hmore hplus).map (fun _ _ h => congrArg (Outline.node · .nil) h)
      fun _ h => .of_node h
  rw [← map_seqLeft, ← map_seqLeft] at hnode
  have hblocks := follows_lineEnd hS <|
    (follows_blocks hS (claim_upTo n) (fed_upTo n) h hm fun _ hk => follows_prompt hmore hk).mono
      (fun _ _ h => h) fun _ _ => .inr
  have hrest := worded_statements registry base source m n n' hmore
  refine hnode.orElse_seqLeft (hblocks.pre fun _ _ h => h.1)
    fun c d f g o c' f' hcd _ hr => .inr (Misses.bind ?_ _)
  -- A choice or a label is no other statement, as its word says.
  have hother {w : String} (hplain : Plain c) (hopens : Opens w c)
      (hw : w ∉ ["clear", "choose", "jump", "wait", "pause", "return"]) :
      Misses (node registry (.upTo registry n')) d g := by
    have hline := hcd.1.extended.line
    exact (((hplain.of_line hline).misses_dialog (.inl rfl) g).bind _).orElse <|
      (((hplain.of_line hline).misses_dialog (.inr rfl) g).bind _).orElse <|
      hrest.others g (hopens.of_line hline) hw
  obtain ⟨_, c₁, f₁, hfirst, -⟩ := of_bind_eq_ok hr
  obtain hchoice | ⟨-, hlabel⟩ := of_orElse_eq_ok hfirst
  · obtain ⟨_, c₂, f₂, hword, -⟩ := of_bind_eq_ok hchoice
    exact hother (plain_choice hchoice) (opens_of_keyword hword (by decide)) (by decide)
  · obtain ⟨_, c₂, f₂, hword, -⟩ := of_bind_eq_ok hlabel
    exact hother (plain_label hlabel) (opens_of_keyword hword (by decide)) (by decide)

end Grammar

end Dialogue
