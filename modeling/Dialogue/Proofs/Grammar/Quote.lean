import Dialogue.Grammar
import Dialogue.Proofs.Expr.Concatenation
import Dialogue.Proofs.Grammar.Token
import Dialogue.Proofs.Parser.Scan

/-!
# Texts in quotes

Every text can be written in quotes (`Encodes`), and is read back as it is, with nothing noted and
nothing taken behind the closing quote. The other way round, what is read from quotes is the text
that is written between them, unless a substitution is in it (`quote_decodes`).

What stands between quotes is read in runs, with escaped characters and substitutions in between.
The rule puts the pieces together as it reads them; `body` keeps them apart, to tell whether there
is a substitution among them.
-/

namespace Dialogue.Grammar

open Dialogue.Parser

/-! ## Writing between quotes -/

/-- The characters that need a backslash between quotes. -/
def escapable : List Char := ['\\', openBrace, '"']

/-- What stands for a character behind a backslash. -/
inductive Escapes : (letter x : Char) → Prop
  | feed : Escapes 'n' '\n'
  | carriage : Escapes 'r' '\r'
  | mark {x : Char} (hx : x ∈ escapable) : Escapes x x

/-- A text is written between quotes. Breaks of lines may be written as they are, or escaped. -/
inductive Encodes : (text written : List Char) → Prop
  | nil : Encodes [] []
  | raw {x : Char} {s q : List Char} (hx : x ∉ escapable) (h : Encodes s q) :
      Encodes (x :: s) (x :: q)
  | escaped {x y : Char} {s q : List Char} (hy : Escapes y x) (h : Encodes s q) :
      Encodes (x :: s) ('\\' :: y :: q)

/-- A run ends at what has to be escaped. -/
theorem endsRun_iff {x : Char} : endsRun x ↔ x ∈ escapable := by
  simp only [endsRun, escapable, Bool.or_eq_true, decide_eq_true_iff, List.mem_cons,
    List.not_mem_nil, or_false, or_assoc]

/-- Characters that do not end a run stand for themselves. -/
theorem Encodes.of_run {run s q : List Char} (hrun : ∀ x ∈ run, endsRun x = false)
    (h : Encodes s q) : Encodes (run ++ s) (run ++ q) := by
  induction run with
  | nil => exact h
  | cons x run ih =>
    obtain ⟨hx, hrun⟩ := List.forall_mem_cons.1 hrun
    exact .raw (fun hmem => by rw [endsRun_iff.2 hmem] at hx; cases hx) (ih hrun)

/-! ## Pieces -/

/-- What stands between quotes, piece by piece. -/
inductive Body where
  /-- A run of plain characters up to the end. -/
  | last (run : List Char)
  /-- A run, an escaped character, and what follows it. -/
  | escaped (run : List Char) (c : Char) (rest : Body)
  /-- A run, a substitution, and what follows it. -/
  | inserted (run : List Char) (e : Expr .text) (rest : Body)

namespace Body

/-- The pieces put together. -/
def expr : Body → Expr .text
  | last run => .literal (k := .text) (String.ofList run)
  | escaped run c rest =>
    .concat (.concat (.literal (k := .text) (String.ofList run))
      (.literal (k := .text) (String.singleton c))) rest.expr
  | inserted run e rest =>
    .concat (.concat (.literal (k := .text) (String.ofList run)) e) rest.expr

/-- No substitution was run. -/
def Plain : Body → Prop
  | last _ => True
  | escaped _ _ rest => rest.Plain
  | inserted _ _ _ => False

/-- The characters, without substitutions. -/
def text : Body → List Char
  | last run => run
  | escaped run c rest => run ++ c :: rest.text
  | inserted run _ rest => run ++ rest.text

/-- One more plain character at the front. -/
def push (x : Char) : Body → Body
  | last run => .last (x :: run)
  | escaped run c rest => .escaped (x :: run) c rest
  | inserted run e rest => .inserted (x :: run) e rest

/-- A character is put before the text. -/
@[simp] theorem text_push (x : Char) (b : Body) : (b.push x).text = x :: b.text := by
  cases b <;> rfl

/-- A character keeps a body free of substitutions. -/
theorem Plain.push {b : Body} (h : b.Plain) (x : Char) : (b.push x).Plain := by
  cases b <;> exact h

/-- Without a substitution the pieces are put together to the literal of their characters. -/
theorem Plain.onto_expr [Arithmetic] {b : Body} (h : b.Plain) (rest : List (Expr .text)) :
    b.expr.onto rest = (Expr.literal (k := .text) (String.ofList b.text)).onto rest := by
  induction b with
  | last run => rfl
  | escaped run c b ih =>
    have htext : String.ofList (run ++ c :: b.text) =
        String.ofList run ++ (String.singleton c ++ String.ofList b.text) := by
      rw [String.ofList_append, String.ofList_cons]
    rw [expr, Expr.onto_concat, Expr.onto_concat, ih h, text, htext, Expr.onto_literal_append,
      Expr.onto_literal_append]
  | inserted => exact h.elim

/-- Without substitutions the expression is simplified to the text. -/
theorem Plain.simplify_expr [Arithmetic] {b : Body} (h : b.Plain) :
    b.expr.simplify = .literal (k := .text) (String.ofList b.text) :=
  Expr.simplify_eq_of_onto (h.onto_expr [])

end Body

/-- Reads what follows a run of plain characters. -/
def behindRun (inner : Nested) (rest : Rule Body) (run : List Char) : Rule Body := do
  lookAhead (satisfy endsRun "closing '\"'")
  match ← optional escape with
  | some c => Body.escaped run c <$> rest
  | none =>
    match ← optional (substitution inner) with
    | some e => Body.inserted run e <$> rest
    | none => return .last run

/-- Reads what stands between quotes, and keeps the pieces apart. -/
def body (registry : Registry) : (depth : Nat) → Rule Body
  | 0 => fun c f => .fatal c.index .endless f
  | depth + 1 =>
    takeWhile (!endsRun ·) >>= behindRun (.upTo registry depth) (body registry depth)

/-- The rule for what stands between quotes reads the same, and puts the pieces together. -/
theorem quoted_eq_body (registry : Registry) (depth : Nat) :
    (Nested.upTo registry depth).quoted = Body.expr <$> body registry depth := by
  induction depth with
  | zero => rfl
  | succ depth ih =>
    change quoted (.upTo registry depth) = _
    simp only [quoted, body, behindRun, ih, map_bind]
    refine bind_congr fun run => bind_congr fun _ => bind_congr fun escaped => ?_
    cases escaped with
    | some c =>
      simp only [pure_bind, map_eq_pure_bind, bind_assoc]
      rfl
    | none =>
      simp only [map_bind]
      refine bind_congr fun inserted => ?_
      cases inserted with
      | some e =>
        simp only [pure_bind, map_eq_pure_bind, bind_assoc]
        rfl
      | none => rfl

/-- One more plain character at the front is one more in the first run. -/
theorem behindRun_cons (inner : Nested) (rest : Rule Body) (x : Char) (run : List Char) :
    behindRun inner rest (x :: run) = Body.push x <$> behindRun inner rest run := by
  simp only [behindRun, map_bind]
  refine bind_congr fun _ => bind_congr fun escaped => ?_
  cases escaped with
  | some c => simp only [map_eq_pure_bind, bind_assoc, pure_bind, Body.push]
  | none =>
    simp only [map_bind]
    refine bind_congr fun inserted => ?_
    cases inserted with
    | some e => simp only [map_eq_pure_bind, bind_assoc, pure_bind, Body.push]
    | none => rfl

/-! ## Reading what is written -/

variable {registry : Registry} {c d : Cursor} {f g : Facts} {x y : Char} {s q r xs : List Char}

/-- The character behind a backslash, and what it stands for. -/
def letter : Rule Char :=
  (fun _ => '\n') <$> char 'n'
    <|> (fun _ => '\r') <$> char 'r'
    <|> char openBrace
    <|> char '"'
    <|> char '\\'

/-- What is read behind a backslash is an escape. -/
theorem of_letter_eq_ok (h : letter c f = .ok x d g) :
    d = c.skip 1 ∧ g = f ∧ ∃ y xs, c.rest = y :: xs ∧ Escapes y x := by
  have hmark {y : Char} (hy : y ∈ escapable) (h : (char y : Rule Char) c f = .ok x d g) :
      d = c.skip 1 ∧ g = f ∧ ∃ y xs, c.rest = y :: xs ∧ Escapes y x := by
    obtain ⟨rfl, rfl, rfl, xs, hrest⟩ := of_char_eq_ok h
    exact ⟨rfl, rfl, _, xs, hrest, .mark hy⟩
  rcases of_orElse_eq_ok h with h | ⟨-, h⟩
  · obtain ⟨_, _, _, h, hx⟩ := of_bind_eq_ok h
    obtain ⟨rfl, rfl, rfl, xs, hrest⟩ := of_char_eq_ok h
    cases hx
    exact ⟨rfl, rfl, _, xs, hrest, .feed⟩
  rcases of_orElse_eq_ok h with h | ⟨-, h⟩
  · obtain ⟨_, _, _, h, hx⟩ := of_bind_eq_ok h
    obtain ⟨rfl, rfl, rfl, xs, hrest⟩ := of_char_eq_ok h
    cases hx
    exact ⟨rfl, rfl, _, xs, hrest, .carriage⟩
  rcases of_orElse_eq_ok h with h | ⟨-, h⟩
  · exact hmark (by decide) h
  rcases of_orElse_eq_ok h with h | ⟨-, h⟩
  · exact hmark (by decide) h
  · exact hmark (by decide) h

/-- An escape is read behind the backslash. -/
theorem letter_eq (h : c.rest = y :: xs) (hy : Escapes y x) : letter c f = .ok x (c.skip 1) f := by
  have hmisses {z : Char} (hz : y ≠ z) : Misses (char z : Rule Char) c f :=
    misses_char fun w hw => by rw [h] at hw; cases hw; exact hz
  cases hy with
  | feed => exact orElse_eq (map_eq (char_eq h))
  | carriage => exact ((hmisses (by decide)).bind _).orElse_eq (orElse_eq (map_eq (char_eq h)))
  | mark hx =>
    have hn : x ≠ 'n' := fun hn => by subst hn; revert hx; decide
    have hr : x ≠ 'r' := fun hr => by subst hr; revert hx; decide
    refine ((hmisses hn).bind _).orElse_eq (((hmisses hr).bind _).orElse_eq ?_)
    simp only [escapable, List.mem_cons, List.not_mem_nil, or_false] at hx
    rcases hx with rfl | rfl | rfl
    · exact (hmisses (by decide)).orElse_eq ((hmisses (by decide)).orElse_eq (char_eq h))
    · exact orElse_eq (char_eq h)
    · exact (hmisses (by decide)).orElse_eq (orElse_eq (char_eq h))

/-- An escaped character is read with the backslash before it. -/
theorem of_escape_eq_ok (h : escape c f = .ok x d g) :
    d = c.skip 2 ∧ g = f ∧ ∃ y xs, c.rest = '\\' :: y :: xs ∧ Escapes y x := by
  obtain ⟨_, _, _, hslash, hletter⟩ := of_bind_eq_ok h
  obtain ⟨rfl, rfl, rfl, ys, hrest⟩ := of_char_eq_ok hslash
  obtain ⟨rfl, rfl, y, xs, hnext, hy⟩ := of_letter_eq_ok hletter
  rw [Cursor.rest_skip, hrest] at hnext
  exact ⟨Cursor.skip_skip .., rfl, y, xs, by rw [hrest]; exact congrArg _ hnext, hy⟩

/-- An escape is read with its backslash. -/
theorem escape_eq (h : c.rest = '\\' :: y :: xs) (hy : Escapes y x) :
    escape c f = .ok x (c.skip 2) f := by
  have hnext : (c.skip 1).rest = y :: xs := by rw [Cursor.rest_skip, h]; rfl
  rw [← Cursor.skip_skip 1 1]
  exact (bind_eq (char_eq h)).trans (letter_eq hnext hy)

/-- What has to be escaped is seen to end the run. -/
theorem lookAhead_endsRun (h : c.rest = x :: xs) (hx : x ∈ escapable) :
    lookAhead (satisfy endsRun "closing '\"'" : Rule Char) c f = .ok () c f := by
  simp only [lookAhead, satisfy, h, endsRun_iff.2 hx, if_true]

/-- A plain character is put before what follows it. -/
theorem body_raw {depth : Nat} (h : c.rest = x :: xs) (hx : x ∉ escapable) :
    body registry (depth + 1) c f = (Body.push x <$> body registry (depth + 1)) (c.skip 1) f := by
  have hends : endsRun x = false := Bool.eq_false_iff.2 fun hends => hx (endsRun_iff.1 hends)
  have hnext : (c.skip 1).rest = xs := by rw [Cursor.rest_skip, h]; rfl
  have hrun : (takeWhile (!endsRun ·) : Rule _) c f =
      .ok (x :: xs.takeWhile (!endsRun ·)) (c.skip (xs.takeWhile (!endsRun ·)).length.succ) f := by
    simp [takeWhile, h, hends]
  have hrun' : (takeWhile (!endsRun ·) : Rule _) (c.skip 1) f =
      .ok (xs.takeWhile (!endsRun ·)) ((c.skip 1).skip (xs.takeWhile (!endsRun ·)).length) f := by
    simp only [takeWhile, hnext]
  rw [body, map_bind, bind_eq hrun, bind_eq hrun', behindRun_cons, Cursor.skip_skip, Nat.add_comm 1]

/-- Where something has to be escaped, no run is read. -/
theorem takeWhile_endsRun (h : c.rest = x :: xs) (hx : x ∈ escapable) :
    (takeWhile (!endsRun ·) : Rule _) c f = .ok [] c f := by
  simp [takeWhile, h, endsRun_iff.2 hx]

/-- An escaped character is put before what follows it. -/
theorem body_escape {depth : Nat} (h : c.rest = '\\' :: y :: xs) (hy : Escapes y x) :
    body registry (depth + 1) c f =
      (Body.escaped [] x <$> body registry depth) (c.skip 2) f := by
  have hmark : '\\' ∈ escapable := by decide
  rw [body, bind_eq (takeWhile_endsRun h hmark), behindRun, bind_eq (lookAhead_endsRun h hmark),
    bind_eq (optional_of_ok (escape_eq h hy))]

/-- The closing quote ends what is read. -/
theorem body_close {depth : Nat} (h : c.rest = '"' :: xs) :
    body registry (depth + 1) c f = .ok (.last []) c f := by
  have hmark : '"' ∈ escapable := by decide
  have hmisses {z : Char} (hz : '"' ≠ z) : Misses (char z : Rule Char) c f :=
    misses_char fun w hw => by rw [h] at hw; cases hw; exact hz
  have hescape : Misses escape c f := (hmisses (by decide)).bind _
  have hsubstitution : Misses (substitution (.upTo registry depth)) c f :=
    (hmisses (by decide)).bind _
  rw [body, bind_eq (takeWhile_endsRun h hmark), behindRun, bind_eq (lookAhead_endsRun h hmark)]
  exact (bind_eq hescape.optional).trans (bind_eq hsubstitution.optional)

/-- What is written between quotes is read back, without a substitution. -/
theorem body_of_encodes (registry : Registry) (h : Encodes s q) {depth : Nat}
    (hdepth : q.length ≤ depth) (hc : c.rest = q ++ '"' :: r) :
    ∃ b, body registry (depth + 1) c f = .ok b (c.skip q.length) f ∧ b.Plain ∧ b.text = s := by
  induction h generalizing c depth with
  | nil =>
    refine ⟨.last [], ?_, trivial, rfl⟩
    rw [body_close hc, List.length_nil, Cursor.skip_zero]
  | @raw x s q hx _ ih =>
    have hnext : (c.skip 1).rest = q ++ '"' :: r := by rw [Cursor.rest_skip, hc]; rfl
    obtain ⟨b, hb, hplain, htext⟩ := ih (Nat.le_of_succ_le hdepth) hnext
    refine ⟨b.push x, ?_, hplain.push x, by rw [Body.text_push, htext]⟩
    rw [body_raw hc hx, map_eq hb, Cursor.skip_skip, Nat.add_comm]
    rfl
  | @escaped x y s q hy _ ih =>
    have hnext : (c.skip 2).rest = q ++ '"' :: r := by rw [Cursor.rest_skip, hc]; rfl
    -- An escaped character takes two, and one level.
    obtain ⟨depth, rfl⟩ : ∃ n, depth = n + 1 := Nat.exists_eq_succ_of_ne_zero (by
      rintro rfl
      cases hdepth)
    obtain ⟨b, hb, hplain, htext⟩ := ih (Nat.le_of_succ_le (Nat.le_of_succ_le_succ hdepth)) hnext
    refine ⟨.escaped [] x b, ?_, hplain, congrArg _ htext⟩
    rw [body_escape hc hy, map_eq hb, Cursor.skip_skip, Nat.add_comm]
    rfl

/-- Without a substitution, an escaped character follows a run, or nothing is read behind it. -/
theorem of_behindRun_eq_ok {inner : Nested} {rest : Rule Body} {run : List Char} {b : Body}
    (h : behindRun inner rest run c f = .ok b d g) (hb : b.Plain) :
    b = .last run ∧ d = c ∧ g = f ∨
      ∃ x y xs b', c.rest = '\\' :: y :: xs ∧ Escapes y x ∧ b = .escaped run x b' ∧
        rest (c.skip 2) f = .ok b' d g := by
  obtain ⟨_, _, _, hahead, hbehind⟩ := of_bind_eq_ok h
  obtain ⟨rfl, rfl, -⟩ := of_lookAhead_eq_ok hahead
  obtain ⟨_, _, _, hoption, hescaped⟩ := of_bind_eq_ok hbehind
  rcases of_optional_eq_ok hoption with ⟨x, rfl, hescape⟩ | ⟨rfl, rfl, rfl, -⟩
  · obtain ⟨rfl, rfl, y, xs, hrest, hy⟩ := of_escape_eq_ok hescape
    obtain ⟨b', _, _, hbody, hb'⟩ := of_bind_eq_ok hescaped
    cases hb'
    exact .inr ⟨x, y, xs, b', hrest, hy, rfl, hbody⟩
  · obtain ⟨_, _, _, hoption, hinserted⟩ := of_bind_eq_ok hescaped
    rcases of_optional_eq_ok hoption with ⟨e, rfl, -⟩ | ⟨rfl, rfl, rfl, -⟩
    · obtain ⟨b', _, _, -, hb'⟩ := of_bind_eq_ok hinserted
      cases hb'
      exact hb.elim
    · cases hinserted
      exact .inl ⟨rfl, rfl, rfl⟩

/-- What is read without a substitution is written like that. -/
theorem encodes_of_body {depth : Nat} {b : Body} (h : body registry depth c f = .ok b d g)
    (hb : b.Plain) :
    ∃ q, Encodes b.text q ∧ c.rest = q ++ d.rest ∧ d = c.skip q.length ∧ g = f := by
  induction depth generalizing c f b with
  | zero => cases h
  | succ depth ih =>
    obtain ⟨run, _, _, hrun, hbehind⟩ := of_bind_eq_ok h
    obtain ⟨rfl, rfl, hrest, hplain⟩ := of_takeWhile_eq_ok hrun
    replace hplain : ∀ x ∈ run, endsRun x = false := fun x hx => by simpa using hplain x hx
    -- Behind the run the text ends, or there is an escaped character.
    rcases of_behindRun_eq_ok hbehind hb with
      ⟨rfl, rfl, rfl⟩ | ⟨x, y, xs, b', hnext, hy, rfl, hbody⟩
    · have hencodes := Encodes.of_run hplain .nil
      rw [List.append_nil] at hencodes
      exact ⟨run, hencodes, hrest, rfl, rfl⟩
    · obtain ⟨q, hq, hrest', rfl, rfl⟩ := ih hbody hb
      have hxs : xs = ((c.skip run.length).skip 2).rest := by rw [Cursor.rest_skip, hnext]; rfl
      refine ⟨run ++ '\\' :: y :: q, .of_run hplain (.escaped hy hq), ?_, ?_, rfl⟩
      · rw [hrest, hnext, hxs, hrest', List.append_assoc]
        rfl
      · rw [Cursor.skip_skip, Cursor.skip_skip, List.length_append, List.length_cons,
          List.length_cons, Nat.add_assoc, Nat.add_comm 2]

/-! ## Texts in quotes -/

/-- The rule for a quote puts the pieces between two quotes together. -/
theorem quote_eq_body (registry : Registry) (depth : Nat) :
    quote (.upTo registry depth) = (do
      let _ ← char '"'
      let b ← body registry (depth + 1)
      let _ ← char '"'
      return b.expr.simplify : Rule _) := by
  have hquoted : quoted (.upTo registry depth) = Body.expr <$> body registry (depth + 1) :=
    quoted_eq_body registry (depth + 1)
  simp only [quote, hquoted, map_eq_pure_bind, bind_assoc, pure_bind]

/-- A text that is written in quotes is read as a literal, up to the closing quote, and nothing is
    noted. The other way round, what is read from quotes is put together from pieces, and if no
    substitution is among them, then it is a literal, and what was taken is its text written in
    quotes. Rules that are nested as deep as there are bytes ahead are enough. -/
theorem quote_decodes (registry : Registry) (depth : Nat) (c : Cursor) (f : Facts) :
    quoted (.upTo registry depth) = Body.expr <$> body registry (depth + 1) ∧
    (∀ (s : String) (q r : List Char), Encodes s.toList q → c.rest = '"' :: q ++ '"' :: r →
      c.remaining ≤ depth →
        quote (.upTo registry depth) c f =
          .ok (.literal (k := .text) s) (c.skip (q.length + 2)) f ∧
        (c.skip (q.length + 2)).rest = r) ∧
    ∀ e d g, quote (.upTo registry depth) c f = .ok e d g →
      ∃ b k, body registry (depth + 1) (c.skip 1) f = .ok b k g ∧ e = b.expr.simplify ∧
        (b.Plain → ∃ s : String, ∃ q, Encodes s.toList q ∧ c.rest = '"' :: q ++ '"' :: d.rest ∧
          d = c.skip (q.length + 2) ∧ e = .literal (k := .text) s ∧ g = f) := by
  refine ⟨quoted_eq_body registry (depth + 1), ?_⟩
  rw [quote_eq_body]
  constructor
  · -- The body of what is written in quotes is plain, and its text is the one that was written.
    intro s q r hs hc hdepth
    have hopen : (c.skip 1).rest = q ++ '"' :: r := by rw [Cursor.rest_skip, hc]; rfl
    have hlength : q.length ≤ depth := by
      have hle := length_le_byteSize c.rest
      rw [← c.remaining_eq, hc, List.length_append, List.length_cons] at hle
      omega
    obtain ⟨b, hb, hplain, htext⟩ := body_of_encodes registry (f := f) hs hlength hopen
    have hclose : ((c.skip 1).skip q.length).rest = '"' :: r := Cursor.rest_skip_append hopen
    have hend : ((c.skip 1).skip q.length).skip 1 = c.skip (q.length + 2) := by
      rw [Cursor.skip_skip, Cursor.skip_skip, Nat.add_comm 1]
    refine ⟨?_, ?_⟩
    · rw [bind_eq (char_eq hc), bind_eq hb, bind_eq (char_eq hclose), hplain.simplify_expr, htext,
        String.ofList_toList, hend]
      rfl
    · rw [← hend, Cursor.rest_skip, hclose]
      rfl
  · -- Between the quotes there is a body, and if it is plain it was written for its text.
    intro e d g h
    obtain ⟨_, _, _, hopen, hinside⟩ := of_bind_eq_ok h
    obtain ⟨rfl, rfl, rfl, ys, hc⟩ := of_char_eq_ok hopen
    obtain ⟨b, k, _, hb, hbehind⟩ := of_bind_eq_ok hinside
    obtain ⟨_, _, _, hclose, he⟩ := of_bind_eq_ok hbehind
    obtain ⟨rfl, rfl, rfl, zs, hk⟩ := of_char_eq_ok hclose
    cases he
    refine ⟨b, k, hb, rfl, fun hplain => ?_⟩
    obtain ⟨q, hq, hrest, rfl, rfl⟩ := encodes_of_body hb hplain
    refine ⟨.ofList b.text, q, by rwa [String.toList_ofList], ?_, ?_, hplain.simplify_expr, rfl⟩
    · have hys : ys = (c.skip 1).rest := by rw [Cursor.rest_skip, hc]; rfl
      have hzs : zs = (((c.skip 1).skip q.length).skip 1).rest := by rw [Cursor.rest_skip, hk]; rfl
      rw [hc, hys, hrest, hk, hzs]
      rfl
    · rw [Cursor.skip_skip, Cursor.skip_skip, Nat.add_comm 1]

/-- A quote and a line feed, written with backslashes between quotes. -/
def escapedQuote : Cursor := .ofChars ['"', '\\', '"', '\\', 'n', '"', '!'] 4

/-- A quotation mark and a line feed are escaped, and decoded. -/
theorem quote_decodes_escaped :
    Encodes "\"\n".toList ['\\', '"', '\\', 'n'] ∧
      complete (fun _ => none) quote escapedQuote .empty =
        .ok (.literal (k := .text) "\"\n") (escapedQuote.skip 6) .empty ∧
      (escapedQuote.skip 6).rest = ['!'] ∧
      ∃ b k, body (fun _ => none) (escapedQuote.remaining + 1) (escapedQuote.skip 1) .empty =
        .ok b k .empty ∧ .literal (k := .text) "\"\n" = b.expr.simplify := by
  have hencodes : Encodes "\"\n".toList ['\\', '"', '\\', 'n'] :=
    .escaped (.mark (by decide)) (.escaped .feed .nil)
  obtain ⟨-, hread, htrace⟩ :=
    quote_decodes (fun _ => none) escapedQuote.remaining escapedQuote .empty
  obtain ⟨hquote, hrest⟩ := hread _ _ ['!'] hencodes rfl (Nat.le_refl _)
  obtain ⟨b, k, hb, he, -⟩ := htrace _ _ _ hquote
  exact ⟨hencodes, hquote, hrest, b, k, hb, he⟩

end Dialogue.Grammar
