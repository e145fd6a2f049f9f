import Dialogue.Grammar.Name

/-!
# Parser terms

A *term* describes a parser that is built from the tokens and the combinators, and that
notes integers in its journal. What such a parser reads is a *datum*.
-/

namespace Dialogue

/-- What a term reads: plain data. -/
inductive Datum where
  /-- Nothing. -/
  | null
  /-- A truth value. -/
  | boolean (b : Bool)
  /-- The number `mantissa / 10 ^ places`. -/
  | number (mantissa : Int) (places : Nat)
  /-- A text. -/
  | text (s : String)
  /-- A list. -/
  | list (items : List Datum)
  /-- Named fields. -/
  | fields (items : List (String × Datum))
  deriving Inhabited, BEq

namespace Datum

/-- The text of one character. -/
def ofChar (c : Char) : Datum := text (String.singleton c)

/-- The text of a list of characters. -/
def ofChars (cs : List Char) : Datum := text (String.ofList cs)

/-- A natural number. -/
def ofNat (n : Nat) : Datum := number n 0

end Datum

/-- A parser of one token, a check, or a step on the journal. -/
inductive Primitive where
  /-- Reads nothing and answers a datum. -/
  | pure (d : Datum)
  /-- One character. -/
  | char (c : Char)
  /-- Any character. -/
  | anyChar
  /-- A letter or a digit. -/
  | alphanumeric
  /-- A space or a tab. -/
  | blank
  /-- A character of a name. -/
  | wordChar
  /-- A character of a set. -/
  | satisfy (set : List Char) (what : String)
  /-- Characters of a set. -/
  | takeWhile (set : List Char)
  /-- Characters of a set, at least one. -/
  | takeWhile1 (set : List Char) (what : String)
  /-- Blanks. -/
  | blanks
  /-- Blanks, at least one. -/
  | blanks1
  /-- White space. -/
  | spaces
  /-- A text. -/
  | tag (text : String)
  /-- A whole word. -/
  | keyword (word : String)
  /-- An operator. -/
  | symbol (spelling : String)
  /-- A name. -/
  | identifier
  /-- The name of a variable. -/
  | variableName
  /-- A line break. -/
  | newline
  /-- The end of the source. -/
  | eof
  /-- The end of a line. -/
  | eol
  /-- The end of a line and the blank lines after it. -/
  | lineEnd
  /-- A number, answered as its text. -/
  | number
  /-- A line indented like the reference. -/
  | same
  /-- A line indented like the reference or more. -/
  | sameOrIndented
  /-- A line indented more than the reference. -/
  | indented
  /-- A line back at the reference. -/
  | unindented
  /-- Notes a number in the journal. -/
  | note (n : Int)
  /-- Misses. -/
  | fail (what : String)
  /-- Fails for good. -/
  | fatal (words : String)

/-- A parser built with combinators. -/
inductive Term where
  /-- A primitive. -/
  | primitive (p : Primitive)
  /-- Runs a term with its own indentation as the reference. -/
  | indentHere (p : Term)
  /-- Reads a term as a token of an expression. -/
  | lexeme (p : Term)
  /-- Wraps the value in a list. -/
  | single (p : Term)
  /-- Answers a datum instead of the value. -/
  | returning (p : Term) (d : Datum)
  /-- Both in turn, for the second value. -/
  | keepRight (p q : Term)
  /-- Both in turn, for the first value. -/
  | keepLeft (p q : Term)
  /-- The first, or else the second. -/
  | orElse (p q : Term)
  /-- As often as it applies, at least `owed` times. -/
  | many (p : Term) (owed : Nat)
  /-- Until the second applies. -/
  | manyTill (p stop : Term)
  /-- Items on lines of their own. -/
  | block (item continues : Term) (owed : Nat)
  /-- The value in a list, or nothing. -/
  | optional (p : Term)
  /-- Only some values. -/
  | filter (p : Term) (allowed : List Datum) (what : String)
  /-- Operands joined by operators, from the left. -/
  | chainLeft (operand operator : Term)
  /-- Checks that a term applies. -/
  | lookAhead (p : Term)
  /-- Checks that a term does not apply. -/
  | notFollowedBy (p : Term) (what : String)
  /-- The term itself, built when it is first needed. -/
  | delayed (p : Term)

/-- The parser that a primitive stands for. -/
def Primitive.parser : Primitive → Parser (List Int) Datum
  | pure d => Pure.pure d
  | char c => Datum.ofChar <$> Parser.char c
  | anyChar => Datum.ofChar <$> Parser.anyChar
  | alphanumeric => Datum.ofChar <$> Parser.alphanumeric
  | blank => Datum.ofChar <$> Parser.blank
  | wordChar => Datum.ofChar <$> Parser.satisfy Text.isWord "word"
  | satisfy set what => Datum.ofChar <$> Parser.satisfy (set.contains ·) what
  | takeWhile set => Datum.ofChars <$> Parser.takeWhile (set.contains ·)
  | takeWhile1 set what => Datum.ofChars <$> Parser.takeWhile1 (set.contains ·) what
  | blanks => Datum.ofChars <$> Parser.blanks
  | blanks1 => Datum.ofChars <$> Parser.blanks1
  | spaces => Datum.ofChars <$> Parser.spaces
  | tag t => Datum.text <$> Parser.tag t
  | keyword w => Datum.text <$> Parser.keyword w
  | symbol s => Datum.text <$> Parser.symbol s
  | identifier => Datum.text <$> Grammar.identifier
  | variableName => Datum.text <$> Grammar.variableName
  | newline => (fun _ => Datum.null) <$> Parser.newline
  | eof => (fun _ => Datum.null) <$> Parser.eof
  | eol => (fun _ => Datum.null) <$> Parser.eol
  | lineEnd => (fun _ => Datum.null) <$> Parser.lineEnd
  | number => (fun x => Datum.text (Number.text x)) <$> Parser.number
  | same => Datum.ofNat <$> Parser.same
  | sameOrIndented => Datum.ofNat <$> Parser.sameOrIndented
  | indented => Datum.ofNat <$> Parser.indented
  | unindented => Datum.ofNat <$> Parser.unindented
  | note n => (fun _ => Datum.number n 0) <$> Parser.record (· ++ [n])
  | fail what => Parser.expected what
  | fatal words => fun c j => .fatal c.index (.other words) j

/-- The parser that a term stands for. -/
def Term.parser : Term → Parser (List Int) Datum
  | primitive p => p.parser
  | indentHere p => p.parser.atOwnIndent
  | lexeme p => Grammar.lexeme p.parser
  | single p => (fun d => Datum.list [d]) <$> p.parser
  | returning p d => (fun _ => d) <$> p.parser
  | keepRight p q => do
    let _ ← p.parser
    q.parser
  | keepLeft p q => do
    let d ← p.parser
    let _ ← q.parser
    pure d
  | orElse p q => p.parser.orElse q.parser
  | many p owed => Datum.list <$> p.parser.many owed
  | manyTill p stop => Datum.list <$> p.parser.manyTill stop.parser
  | block item continues owed => Datum.list <$> Parser.block item.parser continues.parser owed
  | optional p => (fun d => (d.map fun d => Datum.list [d]).getD .null) <$> p.parser.optional
  | filter p allowed what => p.parser.filter (allowed.contains ·) what
  | chainLeft operand operator =>
    operand.parser.chainLeft ((fun d l r => Datum.list [d, l, r]) <$> operator.parser)
  | lookAhead p => (fun _ => Datum.null) <$> p.parser.lookAhead
  | notFollowedBy p what => (fun _ => Datum.null) <$> p.parser.notFollowedBy what
  | delayed p => p.parser

end Dialogue
