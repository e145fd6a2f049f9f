import Dialogue.Proofs.Grammar.Plan
import Dialogue.Proofs.Parser.Scan

/-!
# Regions

Where a place of a text lies can be told from the characters before it alone: within the braces
of a substitution, within parentheses, between quotes, behind a backslash, or in none of them on
the line itself. These *regions* are nested, so they are a stack, the innermost first
(`Region.after`).

What the rules of expressions take is followed by this automaton: a rule that answers stops in
the regions where it started (`Nested.Scan`, `scan_upTo`). On the way nothing but what may stand
there is the first thing on its line (`Fits`): within braces and parentheses a line is indented
at least like the reference, unless it starts with the first thing in the braces or with the
closing brace, and between quotes anything goes.
-/

namespace Dialogue

open Dialogue.Parser

/-- A part of a text that is not read as it stands. -/
inductive Region where
  /-- A substitution. -/
  | braces
  /-- Parentheses in a substitution. -/
  | parens
  /-- A quote in a substitution. -/
  | quotes
  /-- A backslash in a quote, and the character that it is for. -/
  | escape
  deriving DecidableEq

namespace Region

/-- The character that ends a region. -/
def close : Region → Char
  | braces => Grammar.closeBrace
  | parens => ')'
  | _ => '"'

/-- The regions behind one more character, the innermost first. -/
def after : List Region → Char → List Region
  | [], x => if x = Grammar.openBrace then [braces] else []
  | escape :: s, _ => s
  | quotes :: s, x =>
    if x = '\\' then escape :: quotes :: s
    else if x = Grammar.openBrace then braces :: quotes :: s
    else if x = '"' then s
    else quotes :: s
  | r :: s, x =>
    if x = '"' then quotes :: r :: s
    else if x = '(' then parens :: r :: s
    else if x = r.close then s
    else r :: s

/-- The regions behind a text. -/
def afterAll (s : List Region) (cs : List Char) : List Region := cs.foldl after s

/-- The innermost region is one where an expression is read. -/
def Holds (s : List Region) : Prop := s.head? = some braces ∨ s.head? = some parens

/-- The characters that regions start and end with in an expression, and those of line breaks. -/
def marks : List Char := ['\n', '\r', '"', '(', ')', Grammar.openBrace, Grammar.closeBrace]

/-- A character of a token that stays in its region and on its line. -/
def isPlain (x : Char) : Bool := !marks.contains x

/-- The characters of a class without marks. -/
theorem isPlain_of_class {set : Char → Bool} (h : marks.all (!set ·)) {x : Char} (hx : set x) :
    isPlain x := by
  refine Bool.not_eq_true' _ ▸ Bool.eq_false_iff.2 fun hm => ?_
  have hset := List.all_eq_true.1 h x (List.contains_iff_mem.1 hm)
  rw [hx] at hset
  cases hset

/-- A plain character is no line break. -/
theorem isBreak_of_isPlain {x : Char} (h : isPlain x) : Text.isBreak x = false := by
  simp_all [isPlain, marks, Text.isBreak]

end Region

/-- Behind the white space that is behind the cursor a brace was opened. -/
def Cursor.Opens (c : Cursor) : Prop :=
  (c.before.dropWhile Text.isSpace).head? = some Grammar.openBrace

namespace Grammar

variable {α : Type} {registry : Registry} {inner : Nested} {start : Nat} {s : List Region}
  {c : Cursor} {x : Char} {xs : List Char}

/-! ## Where the first thing on a line may stand -/

/-- The regions that the first thing on a line is in may have it there, in a text right of a
    column: on the line itself it is on a line indented more; in an expression it is on a line
    indented as much, or it is the first thing in the braces, or it closes them. -/
def Allowed (column : Nat) (s : List Region) (c : Cursor) : Prop :=
  match s with
  | [] => column < c.column
  | .braces :: _ | .parens :: _ => c.peek? = some closeBrace ∨ c.Opens ∨ column ≤ c.column
  | _ => True

/-- The first thing on a line is where it may be, or it is the first thing of the text. -/
def Fits (start : Nat) (s : List Region) (c : Cursor) : Prop :=
  c.StartsLine → s = [] ∧ c.index = start ∨ Allowed c.reference.column s c

/-- A place where a token may stand. -/
def Checked (c : Cursor) : Prop := c.Leads → c.Opens ∨ c.reference.column ≤ c.column

/-- A token that may stand at a place fits an expression there. -/
theorem Checked.fits (h : Checked c) (hs : Region.Holds s) : Fits start s c := by
  intro hc
  refine .inr ?_
  match s with
  | [] => simp [Region.Holds] at hs
  | .braces :: _ | .parens :: _ => exact .inr (h hc.leads)
  | .quotes :: _ | .escape :: _ => trivial

/-- White space fits everywhere, as it is never the first thing on a line. -/
theorem fits_of_space (h : c.rest = x :: xs) (hx : Text.isSpace x) : Fits start s c := by
  rintro ⟨-, y, ys, hrest, hy⟩
  rw [h] at hrest
  cases hrest
  rw [hx] at hy
  cases hy

/-- Between quotes anything fits. -/
theorem fits_quotes : Fits start (.quotes :: s) c := fun _ => .inr trivial

/-- Behind a backslash anything fits. -/
theorem fits_escape : Fits start (.escape :: s) c := fun _ => .inr trivial

/-- Behind the first thing on a line any token may stand. -/
theorem checked_of_not_leads (h : ¬c.Leads) : Checked c := fun hl => absurd hl h

/-- Behind a character of its line, a token may stand where it could before. -/
theorem Checked.skip_one (h : Checked c) (hrest : c.rest = x :: xs)
    (hx : Text.isBreak x = false) : Checked (c.skip 1) := by
  intro hl
  obtain ⟨hspace, hl⟩ := hl.of_skip_one hrest hx
  rw [Cursor.Opens, Cursor.before_skip_one hrest, List.dropWhile_cons_of_pos hspace,
    Cursor.column_skip_one hrest hx]
  exact h hl

/-- White space behind an opening brace changes nothing. -/
theorem opens_skip_one (h : c.Opens) (hrest : c.rest = x :: xs) (hx : Text.isSpace x) :
    (c.skip 1).Opens := by
  rw [Cursor.Opens, Cursor.before_skip_one hrest, List.dropWhile_cons_of_pos hx]
  exact h

/-! ## Tokens in expressions -/

/-- A plain character stays in the regions of an expression. -/
theorem after_plain (hs : Region.Holds s) (hx : Region.isPlain x) : Region.after s x = s := by
  match s with
  | [] => simp [Region.Holds] at hs
  | .braces :: _ => simp_all [Region.after, Region.close, Region.isPlain, Region.marks]
  | .parens :: _ => simp_all [Region.after, Region.close, Region.isPlain, Region.marks]
  | .quotes :: _ => simp [Region.Holds] at hs
  | .escape :: _ => simp [Region.Holds] at hs

/-- A character of a name is plain. -/
theorem isPlain_of_isWord (h : Text.isWord x) : Region.isPlain x :=
  Region.isPlain_of_class (by decide) h

/-- A character of a number is plain. -/
theorem isPlain_of_isNumeric (h : isNumeric x) : Region.isPlain x :=
  Region.isPlain_of_class (by decide) h

/-- White space is in the regions that it comes after. -/
theorem after_space (hs : Region.Holds s ∨ s = []) (hx : Text.isSpace x) :
    Region.after s x = s := by
  have hne : x ∉ ['"', '(', ')', openBrace, closeBrace] := by
    intro hm
    simp only [List.mem_cons, List.not_mem_nil, or_false] at hm
    rcases hm with rfl | rfl | rfl | rfl | rfl <;> cases hx
  match s with
  | [] => simp_all [Region.after]
  | .braces :: _ => simp_all [Region.after, Region.close]
  | .parens :: _ => simp_all [Region.after, Region.close]
  | .quotes :: _ => simp [Region.Holds] at hs
  | .escape :: _ => simp [Region.Holds] at hs

section

variable {σ : Type} {p : Parser σ α} {P Q : Cursor → Prop} {s' : List Region}

/-- A token of plain characters stays in its regions. -/
theorem scans_token (hs : Region.Holds s) (hp : Spans Region.isPlain p) :
    Scans Region.after (Fits start) Checked s p s Checked :=
  .token hp (fun _ => after_plain hs) (fun _ _ _ hc _ _ => hc.fits hs)
    fun _ _ _ hc hrest hx => hc.skip_one hrest (Region.isBreak_of_isPlain hx)

/-- A character that is no white space, and may stand here. Behind it any token may stand. -/
theorem scans_char (hx : Text.isSpace x = false)
    (hP : ∀ c xs, P c → c.rest = x :: xs → Fits start s c) :
    Scans Region.after (Fits start) P s (char x : Parser σ Char) (Region.after s x)
      fun c => ¬c.Leads :=
  .char fun c xs hc hrest => ⟨hP c xs hc hrest, Cursor.not_leads_skip_one hrest hx⟩

/-- A mark of an expression is checked, and opens or closes what it stands for. -/
theorem scans_mark (hs : Region.Holds s) (hx : Text.isSpace x = false) :
    Scans Region.after (Fits start) Checked s (char x : Parser σ Char) (Region.after s x) Checked :=
  (scans_char hx fun _ _ hc _ => hc.fits hs).mono fun _ => checked_of_not_leads

/-- White space with an invariant that it keeps. -/
theorem scans_spaces (hs : Region.Holds s ∨ s = [])
    (hP : ∀ c x xs, P c → c.rest = x :: xs → Text.isSpace x → P (c.skip 1)) :
    Scans Region.after (Fits start) P s (spaces : Parser σ _) s P :=
  .token (spans_takeWhile fun _ h => h) (fun _ => after_space hs)
    (fun _ _ _ _ hrest hx => fits_of_space hrest hx) hP

/-- White space stays in its regions, in an expression and outside of all of them. -/
theorem scans_anySpaces (hs : Region.Holds s ∨ s = []) :
    Scans Region.after (Fits start) P s (spaces : Parser σ _) s fun _ => True :=
  (scans_spaces hs fun _ _ _ _ _ _ => trivial).pre fun _ _ => trivial

/-- The check of the column takes nothing, and says how the line is indented. -/
theorem scans_sameOrIndented : Scans Region.after (Fits start) P s (sameOrIndented : Parser σ _) s
    fun c => c.reference.column ≤ c.column := by
  intro c j a c' j' _ h
  simp only [sameOrIndented, indentation] at h
  split at h
  · rename_i hle
    cases h
    exact ⟨.here s c, of_decide_eq_true hle⟩
  · cases h

/-- A token is scanned behind white space and the check of the column. -/
theorem scans_lexeme (hs : Region.Holds s) (hp : Scans Region.after (Fits start) Checked s p s' Q) :
    Scans Region.after (Fits start) P s (lexeme p) s' Q :=
  (scans_anySpaces (.inl hs)).bind fun _ => scans_sameOrIndented.bind fun _ =>
    hp.pre fun _ hc _ => .inr hc

/-- A name is of plain characters. -/
theorem spans_identifier : Spans Region.isPlain (identifier : Parser σ String) :=
  (spans_takeWhile1 fun _ => isPlain_of_isWord).filter.filter.map

/-- A name that is no word of the grammar consists of word characters. -/
theorem spans_unreserved : Spans Region.isPlain (unreserved : Parser σ String) :=
  spans_identifier.filter

/-- The name of a variable stays in its regions. -/
theorem scans_variableName (hs : Region.Holds s) :
    Scans Region.after (Fits start) Checked s (variableName : Parser σ String) s Checked :=
  (scans_token hs spans_unreserved).seqLeft .notFollowedBy

end

/-- What is spelled plainly is of plain characters. -/
theorem spans_spelled : (spellings : List String) →
    spellings.all (·.toList.all Region.isPlain) → Spans Region.isPlain (spelled spellings)
  | [], _ => fun _ _ _ _ _ h => nomatch h
  | [_], h => spans_symbol (Bool.and_eq_true_iff.1 h).1
  | _ :: s :: rest, h =>
    (spans_symbol (Bool.and_eq_true_iff.1 h).1).orElse
      (spans_spelled (s :: rest) (Bool.and_eq_true_iff.1 h).2)

/-! ## Expressions -/

/-- In an expression, the rule stops in the regions where it started. -/
def Covers (start : Nat) (p : Rule α) : Prop :=
  ∀ s, Region.Holds s → Scans Region.after (Fits start) Checked s p s Checked

/-- A place on the line itself that the first thing on the line may have. -/
def Within (start : Nat) (c : Cursor) : Prop :=
  c.Leads → c.index = start ∧ (∀ x xs, c.rest = x :: xs → Text.isSpace x = false) ∨
    c.reference.column < c.column

/-- Nested rules that stop in the regions where they started. -/
structure Nested.Scan (start : Nat) (inner : Nested) : Prop where
  /-- Sums. -/
  sum : Covers start inner.sum
  /-- Disjunctions. -/
  disjunction : Covers start inner.disjunction
  /-- Truth values that may be negated. -/
  unary : Covers start inner.unary
  /-- Texts as operands. -/
  operand : Covers start inner.operand
  /-- What stands between quotes. -/
  quoted (s : List Region) : Scans Region.after (Fits start) (fun _ => True) (.quotes :: s)
    inner.quoted (.quotes :: s) fun _ => True
  /-- Rests of lines of text. -/
  textLine : Scans Region.after (Fits start) (Within start) [] inner.textLine [] (Within start)

/-- Operands are scanned, whatever their category is. -/
theorem Nested.Scan.expr (h : inner.Scan start) : (k : Category) → Covers start (inner.expr k)
  | .number => h.sum
  | .boolean => h.disjunction
  | .text => h.operand

namespace Covers

variable {p q : Rule α}

/-- Alternatives are scanned if each of them is. -/
theorem orElse (hp : Covers start p) (hq : Covers start q) : Covers start (p <|> q) :=
  fun s hs => (hp s hs).orElse (hq s hs)

/-- A changed value is read from the same characters. -/
theorem map {β : Type} {f : α → β} (hp : Covers start p) : Covers start (f <$> p) :=
  fun s hs => (hp s hs).map

/-- Chains are scanned if their operands and operators are. -/
theorem chainLeft {operator : Rule (α → α → α)} (hp : Covers start p)
    (ho : Covers start operator) : Covers start (Parser.chainLeft p operator) :=
  fun s hs => (hp s hs).chainLeft (ho s hs)

/-- Tokens are scanned, with the white space before them. -/
theorem lexeme (hp : Covers start p) : Covers start (Grammar.lexeme p) :=
  fun s hs => scans_lexeme hs (hp s hs)

/-- What is of plain characters is scanned. -/
theorem of_spans (hp : Spans Region.isPlain p) : Covers start p := fun _ hs =>
  scans_token hs hp

end Covers

/-- A plain character that is no white space is scanned. -/
theorem covers_char (hx : Region.isPlain x) (hspace : Text.isSpace x = false) :
    Covers start (char x : Rule Char) := fun s hs => by
  have hmark : Scans Region.after (Fits start) Checked s (char x : Rule Char) (Region.after s x)
      Checked := scans_mark hs hspace
  rwa [after_plain hs hx] at hmark

/-- An operator with plain spellings is scanned. -/
theorem covers_operator (a : α) {spellings : List String}
    (h : spellings.all (·.toList.all Region.isPlain)) :
    Covers start (operator a spellings) :=
  fun _ hs => (scans_lexeme hs (scans_token hs (spans_spelled spellings h))).bind fun _ => .pure

/-- A comparison sign is scanned, in each of its spellings. -/
theorem covers_compareSign : Covers start compareSign := by
  have hkeyword {w : String} (h : w.toList.all Region.isPlain) :
      Covers start (keyword w) := .of_spans (spans_keyword h)
  have htag {w : String} (h : w.toList.all Region.isPlain) :
      Covers start (tag w) := .of_spans (spans_tag h)
  have hblanks : Covers start blanks1 :=
    .of_spans (spans_takeWhile1 fun x => Region.isPlain_of_class (by decide))
  have hisNot : Covers start (do
      let _ ← keyword "is"
      let _ ← blanks1
      let _ ← keyword "not"
      return CompareOp.isNot) := fun s hs =>
    (hkeyword (by decide) s hs).bind fun _ => (hblanks s hs).bind fun _ =>
      (hkeyword (by decide) s hs).bind fun _ => .pure
  exact .lexeme <| hisNot.orElse <| (htag (by decide)).map.orElse <|
    (hkeyword (by decide)).map.orElse (htag (by decide)).map

/-- In an expression a parenthesis opens a region. -/
theorem after_open (hs : Region.Holds s) : Region.after s '(' = .parens :: s := by
  match s with
  | [] => simp [Region.Holds] at hs
  | .braces :: _ => rfl
  | .parens :: _ => rfl
  | .quotes :: _ => simp [Region.Holds] at hs
  | .escape :: _ => simp [Region.Holds] at hs

/-- Within parentheses expressions are read. -/
theorem holds_parens : Region.Holds (.parens :: s) := .inr rfl

/-- Within braces expressions are read. -/
theorem holds_braces : Region.Holds (.braces :: s) := .inl rfl

/-- Behind the opening parenthesis. -/
theorem scans_open (hs : Region.Holds s) : Scans Region.after (Fits start) Checked s
    (char '(' : Rule Char) (.parens :: s) Checked :=
  after_open hs ▸ scans_mark hs (by decide)

/-- Behind the closing parenthesis. -/
theorem scans_close : Scans Region.after (Fits start) Checked (.parens :: s)
    (lexeme (char ')') : Rule Char) s Checked :=
  scans_lexeme holds_parens (scans_mark holds_parens (by decide))

/-- Parentheses are closed where the rule in them stops. -/
theorem covers_parenthesized {p : Rule α} (hp : Covers start p) :
    Covers start (parenthesized p) :=
  fun _ hs => (scans_lexeme hs (scans_open hs)).bind fun _ => (hp _ holds_parens).bind fun _ =>
    scans_close.bind fun _ => .pure

/-- A variable is scanned like its name. -/
theorem covers_variableOf {k : Category} : Covers start (variableOf k) :=
  fun _ hs => Scans.position.bind fun _ => (scans_variableName hs).bind fun _ =>
    Scans.record.bind fun _ => .pure

/-- Arguments stay in their parentheses. -/
theorem scans_arguments (h : inner.Scan start) {wrongCount : Rule Unit}
    (hwrong : ∀ R, Scans Region.after (Fits start) Checked (.parens :: s) wrongCount
      (.parens :: s) R) (first : Bool) (ks : List Category) :
    Scans Region.after (Fits start) Checked (.parens :: s) (arguments inner wrongCount first ks)
      (.parens :: s) Checked := by
  induction ks generalizing first with
  | nil => exact .pure
  | cons k ks ih =>
    rw [arguments]
    dsimp only
    have hargs : Scans Region.after (Fits start) Checked (.parens :: s) (do
        let e ← inner.expr k
        let rest ← arguments inner wrongCount false ks
        return Args.cons e rest) (.parens :: s) Checked :=
      (h.expr k _ holds_parens).bind fun _ => (ih false).bind fun _ => .pure
    have hcomma : Covers start (char ',' : Rule Char) := covers_char (by decide) (by decide)
    refine Scans.wouldMatch.bind fun _ => .stopIf hwrong ?_
    split
    · exact hargs
    · exact ((hcomma.lexeme _ holds_parens).optional fun _ h => h).bind fun _ =>
        .stopIf hwrong hargs

/-- What is read of a call behind its opening parenthesis. -/
def called (registry : Registry) (inner : Nested) (k : Category) (index : Nat) (name : String) :
    Rule (Expr k) :=
  match registry name with
  | none => fatalAt index (.unknownBinding name)
  | some s =>
    if s.result ≠ k then
      fun _ f => .miss index [k.name ++ " expression"] f
    else do
      let wrongCount : Rule Unit := fatalAt index (.argumentCount name s.params.length)
      let args ← arguments inner wrongCount true s.params
      if (← optional (lexeme (char ')'))).isNone then wrongCount
      return .call name args

/-- A call is a name with a parenthesis, and what is read behind it. -/
theorem call_eq (registry : Registry) (inner : Nested) (k : Category) :
    call registry inner k = (do
      let index ← position
      let name ← unreserved
      let _ ← char '('
      called registry inner k index name) := rfl

/-- The parentheses are closed where a call stops. -/
theorem scans_called (h : inner.Scan start) {k : Category} (index : Nat) (name : String) :
    Scans Region.after (Fits start) Checked (.parens :: s) (called registry inner k index name) s
      Checked := by
  rw [called]
  cases registry name with
  | none => exact .fatalAt
  | some signature =>
    dsimp only
    refine .ite (fun _ => .missAt) fun _ => ?_
    refine (scans_arguments h (fun _ => .fatalAt) true signature.params).bind fun args => ?_
    refine .optionalBind scans_close (fun _ => .pure) (.ite (fun _ => ?_) fun hn => absurd rfl hn)
    have hnever : Scans Region.after (Fits start) Checked (.parens :: s)
        (fatalAt index (.argumentCount name signature.params.length) : Rule Unit) s Checked :=
      .fatalAt
    exact hnever.bind fun _ => .pure

/-- A call stops in the regions where it started, as its parenthesis is closed. -/
theorem covers_call (h : inner.Scan start) {k : Category} :
    Covers start (call registry inner k) := fun s hs => by
  rw [call_eq]
  exact Scans.position.bind fun i => (scans_token hs spans_unreserved).bind fun name =>
    (scans_open hs).bind fun _ => scans_called h i name

/-- A factor is scanned in each of its forms. -/
theorem covers_factor (h : inner.Scan start) : Covers start (factor registry inner) :=
  (covers_parenthesized h.sum).orElse <|
    (Covers.of_spans (spans_number fun _ => isPlain_of_isNumeric)).lexeme.map.orElse <|
      (covers_call h).lexeme.orElse covers_variableOf.lexeme

/-- A product is scanned factor by factor. -/
theorem covers_product (h : inner.Scan start) : Covers start (product registry inner) :=
  (covers_factor h).chainLeft <|
    (covers_operator _ (by decide)).orElse (covers_operator _ (by decide))

/-- A sum is scanned product by product. -/
theorem covers_sum (h : inner.Scan start) : Covers start (sum registry inner) :=
  (covers_product h).chainLeft <|
    (covers_operator _ (by decide)).orElse (covers_operator _ (by decide))

/-! ## Quotes and substitutions -/

/-- The regions that a substitution may stand in: on the line itself, or between quotes. -/
def Region.Takes (s : List Region) : Prop := s = [] ∨ s.head? = some .quotes

/-- A brace opens a region on the line itself and between quotes. -/
theorem after_openBrace (hs : Region.Takes s) : Region.after s openBrace = .braces :: s := by
  match s with
  | [] => rfl
  | .quotes :: _ => rfl
  | .braces :: _ => simp [Region.Takes] at hs
  | .parens :: _ => simp [Region.Takes] at hs
  | .escape :: _ => simp [Region.Takes] at hs

/-- The closing brace. -/
theorem scans_closeBrace {P : Cursor → Prop} :
    Scans Region.after (Fits start) P (.braces :: s)
      (do let _ ← spaces; discard (char closeBrace) : Rule Unit) s fun c => ¬c.Leads := by
  refine (scans_anySpaces (.inl holds_braces)).bind fun _ => ?_
  refine .discard (scans_char (by decide) fun c xs _ hrest _ => ?_)
  exact .inr (.inl (by rw [Cursor.peek?, hrest]; rfl))

/-- What a substitution takes begins and ends in the regions that it stands in. -/
theorem scans_substitution (h : inner.Scan start) (hs : Region.Takes s) {P : Cursor → Prop}
    (hP : ∀ c, P c → Fits start s c) :
    Scans Region.after (Fits start) P s (substitution inner) s fun c => ¬c.Leads := by
  have hopen : Scans Region.after (Fits start) P s (char openBrace : Rule Char) (.braces :: s)
      Cursor.Opens := by
    rw [← after_openBrace hs]
    refine .char fun c xs hc hrest => ⟨hP c hc, ?_⟩
    rw [Cursor.Opens, Cursor.before_skip_one hrest, List.dropWhile_cons_of_neg (by decide)]
    rfl
  have hchecked : ∀ c : Cursor, c.Opens → Checked c := fun c hc _ => .inl hc
  have hexpr {k : Category} {p : Rule (Expr k)} (hp : Covers start p) :
      Scans Region.after (Fits start) Cursor.Opens (.braces :: s)
        (p <* (do let _ ← spaces; discard (char closeBrace) : Rule Unit)) s fun c => ¬c.Leads :=
    ((hp _ holds_braces).pre hchecked).seqLeft scans_closeBrace
  refine hopen.bind fun _ => .orElse ?_ <| .orElse (hexpr h.sum).map <|
    .orElse (hexpr h.disjunction).map (hexpr h.operand)
  -- The name of a variable may stand on any line behind the brace.
  refine (scans_spaces (.inl holds_braces) fun _ _ _ => opens_skip_one).bind fun _ => ?_
  refine ((scans_variableName holds_braces).pre hchecked).bind fun _ => ?_
  exact scans_closeBrace.bind fun _ => .pure

/-- A character between quotes. -/
theorem scans_quoted_char {P : Cursor → Prop} :
    Scans Region.after (Fits start) P (.quotes :: s) (char x : Rule Char)
      (Region.after (.quotes :: s) x) fun _ => True :=
  .char fun _ _ _ _ => ⟨fits_quotes, trivial⟩

/-- An escape stays between its quotes. -/
theorem scans_escape {P : Cursor → Prop} :
    Scans Region.after (Fits start) P (.quotes :: s) escape (.quotes :: s) fun _ => True := by
  have hafter {x : Char} : Scans Region.after (Fits start) (fun _ => True)
      (.escape :: .quotes :: s) (char x : Rule Char) (.quotes :: s) fun _ => True :=
    .char fun _ _ _ _ => ⟨fits_escape, trivial⟩
  exact scans_quoted_char.bind fun _ => hafter.map.orElse <| hafter.map.orElse <|
    hafter.orElse <| hafter.orElse hafter

/-- What stands between quotes stays there. -/
theorem scans_quoted (h : inner.Scan start) : Scans Region.after (Fits start) (fun _ => True)
    (.quotes :: s) (quoted inner) (.quotes :: s) fun _ => True := by
  have hrun : Scans Region.after (Fits start) (fun _ => True) (.quotes :: s)
      (takeWhile (!endsRun ·) : Rule _) (.quotes :: s) fun _ => True := by
    refine .token (spans_takeWhile fun _ h => h) (fun x hx => ?_) (fun _ _ _ _ _ _ => fits_quotes)
      fun _ _ _ _ _ _ => trivial
    simp only [endsRun, Bool.not_eq_true', Bool.or_eq_false_iff, decide_eq_false_iff_not] at hx
    simp [Region.after, hx]
  refine hrun.bind fun run => Scans.lookAhead.bind fun _ => ?_
  refine .optionalBind scans_escape (fun c => ?_) ?_
  · exact (h.quoted s).bind fun _ => .pure
  · refine .optionalBind ((scans_substitution h (.inr rfl) fun _ _ => fits_quotes).mono
      fun _ _ => trivial) (fun piece => ?_) .pure
    exact (h.quoted s).bind fun _ => .pure

/-- In an expression a quotation mark opens a region. -/
theorem after_quote (hs : Region.Holds s) : Region.after s '"' = .quotes :: s := by
  match s with
  | [] => simp [Region.Holds] at hs
  | .braces :: _ => rfl
  | .parens :: _ => rfl
  | .quotes :: _ => simp [Region.Holds] at hs
  | .escape :: _ => simp [Region.Holds] at hs

/-- A text in quotes stops in the regions where it started. -/
theorem covers_quote (h : inner.Scan start) : Covers start (quote inner) := by
  intro s hs
  have hfirst : Scans Region.after (Fits start) Checked s (char '"' : Rule Char) (.quotes :: s)
      Checked := after_quote hs ▸ scans_mark hs (by decide)
  have hlast : Scans Region.after (Fits start) (fun _ => True) (.quotes :: s)
      (char '"' : Rule Char) s Checked :=
    (scans_char (by decide) fun _ _ _ _ => fits_quotes).mono fun _ => checked_of_not_leads
  exact (hfirst.mono fun _ _ => trivial).bind fun _ => (scans_quoted h).bind fun _ =>
    hlast.bind fun _ => .pure

/-- A text as an operand is scanned in each of its forms. -/
theorem covers_operand (h : inner.Scan start) : Covers start (operand registry inner) :=
  (covers_quote h).lexeme.orElse <| (covers_call h).lexeme.orElse covers_variableOf.lexeme

/-! ## Logic -/

/-- A truth value alone is scanned in each of its forms. -/
theorem covers_boolean (h : inner.Scan start) : Covers start (boolean registry inner) := by
  have hword {w : String} (hw : w.toList.all Region.isPlain) :
      Covers start (lexeme (keyword w)) := (Covers.of_spans (spans_keyword hw)).lexeme
  exact (covers_parenthesized h.disjunction).orElse <| (hword (by decide)).map.orElse <|
    (hword (by decide)).map.orElse <| (covers_call h).lexeme.orElse covers_variableOf.lexeme

/-- Two variables compared are scanned with the sign between them. -/
theorem covers_variableComparison : Covers start variableComparison := by
  intro s hs
  refine (scans_anySpaces (.inl hs)).bind fun _ => scans_sameOrIndented.bind fun _ => ?_
  refine Scans.position.bind fun _ => ?_
  refine ((scans_variableName hs).pre fun _ hc _ => .inr hc).bind fun l => ?_
  refine (covers_compareSign s hs).bind fun op => ?_
  refine (scans_lexeme hs (scans_variableName hs)).bind fun r => ?_
  exact Scans.notFollowedBy.bind fun _ => Scans.record.bind fun _ => .pure

/-- Two operands compared are scanned if the operands are. -/
theorem covers_comparisonOf {k : Category} {p : Rule (Expr k)} (hp : Covers start p) :
    Covers start (comparisonOf p) :=
  fun s hs => (hp s hs).bind fun _ => (covers_compareSign s hs).bind fun _ =>
    (hp s hs).bind fun _ => .pure

/-- A reading of truth values is scanned as far as it answers. -/
theorem covers_booleanReading (h : inner.Scan start) :
    Covers start (booleanReading registry inner) := by
  intro s hs
  have hboolean : Scans Region.after (Fits start) Checked s (boolean registry inner) s Checked :=
    covers_boolean h s hs
  have hunless (e : Expr .boolean) : Scans Region.after (Fits start) Checked s
      (do return if ← wouldMatch arithmeticSign then none else some e : Rule _) s Checked :=
    Scans.wouldMatch.bind fun _ => .pure
  refine .optionalBind hboolean (fun l => ?_) .pure
  refine .optionalBind (covers_compareSign s hs) (fun op => ?_) (hunless l)
  exact .optionalBind hboolean (fun r => hunless _) .pure

/-- A relation is scanned, whichever reading answers. -/
theorem covers_relation (h : inner.Scan start) : Covers start (relation registry inner) := by
  intro s hs
  rw [relation, insteadOf_eq, insteadOf_eq]
  refine .reread ((covers_variableComparison s hs).optional fun _ h => h) <|
    .reread (covers_booleanReading h s hs) ?_
  exact ((covers_comparisonOf (covers_sum h)).orElse (covers_comparisonOf (covers_operand h))) s hs

/-- A negation is scanned with its sign. -/
theorem covers_negation (h : inner.Scan start) : Covers start (negation inner) := by
  intro s hs
  have hbang : Covers start (tag "!" <* notFollowedBy (char '=') "'!'" : Rule String) :=
    fun s hs => (scans_token hs (spans_tag (by decide))).seqLeft .notFollowedBy
  have hnot : Covers start (keyword "not") := .of_spans (spans_keyword (by decide))
  exact ((hnot.orElse hbang).lexeme s hs).bind fun _ => (h.unary s hs).bind fun _ => .pure

/-- What may be negated is scanned. -/
theorem covers_unary (h : inner.Scan start) : Covers start (unary registry inner) :=
  (covers_negation h).orElse (covers_relation h)

/-- A conjunction is scanned operand by operand. -/
theorem covers_conjunction (h : inner.Scan start) : Covers start (conjunction registry inner) :=
  (covers_unary h).chainLeft (covers_operator _ (by decide))

/-- An exclusive disjunction is scanned operand by operand. -/
theorem covers_exclusive (h : inner.Scan start) : Covers start (exclusive registry inner) :=
  (covers_conjunction h).chainLeft (covers_operator _ (by decide))

/-- A disjunction is scanned operand by operand. -/
theorem covers_disjunction (h : inner.Scan start) : Covers start (disjunction registry inner) :=
  (covers_exclusive h).chainLeft (covers_operator _ (by decide))

end Grammar
end Dialogue
