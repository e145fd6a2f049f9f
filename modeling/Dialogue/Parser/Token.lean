import Dialogue.Number.Text
import Dialogue.Parser
import Dialogue.Text.Word

/-!
# Tokens

The parsers of single characters, runs of blanks, line ends, fixed words and numbers.
-/

namespace Dialogue.Parser

variable {σ : Type}

/-- The character `x`. -/
def char (x : Char) : Parser σ Char := satisfy (· = x) (String.singleton x)

/-- Any character. -/
def anyChar : Parser σ Char := satisfy (fun _ => true) "any character"

/-- A letter or a digit. -/
def alphanumeric : Parser σ Char := satisfy Text.isAlphanumeric "letter or digit"

/-- A space or a tab. -/
def blank : Parser σ Char := satisfy Text.isBlank "space"

/-- The longest run of characters in a class, which must not be empty. -/
def takeWhile1 (p : Char → Bool) (what : String) : Parser σ (List Char) := fun c j =>
  match c.rest.takeWhile p with
  | [] => .miss c.index [what] j
  | run => .ok run (c.skip run.length) j

/-- Any blanks. -/
def blanks : Parser σ (List Char) := takeWhile Text.isBlank

/-- At least one blank. -/
def blanks1 : Parser σ (List Char) := takeWhile1 Text.isBlank "space"

/-- Any white space, line breaks included. -/
def spaces : Parser σ (List Char) := takeWhile Text.isSpace

/-- A line break: a line feed, a carriage return, or both in the other order. -/
def newline : Parser σ Unit := fun c j =>
  match c.rest with
  -- Both together are one line break.
  | '\r' :: '\n' :: _ => .ok () (c.skip 2) j
  | x :: _ => if Text.isBreak x then .ok () (c.skip 1) j else .miss c.index ["line break"] j
  | [] => .miss c.index ["line break"] j

/-- The end of the source. -/
def eof : Parser σ Unit := fun c j =>
  if c.atEnd then .ok () c j else .miss c.index ["end of input"] j

/-- The end of a line: a line break or the end of the source. -/
def eol : Parser σ Unit := newline <|> eof

/-- Exactly this text. -/
def tag (text : String) : Parser σ String := fun c j =>
  if text.toList.isPrefixOf c.rest then .ok text (c.skip text.length) j
  else .miss c.index [text] j

/-- This text, with no character of a name after it. -/
def keyword (word : String) : Parser σ String := fun c j =>
  if word.toList.isPrefixOf c.rest && !((c.rest.drop word.length).head?.any Text.isWord) then
    .ok word (c.skip word.length) j
  else .miss c.index [word] j

/-- An operator: a keyword if it starts like a name, else exactly this text. -/
def symbol (spelling : String) : Parser σ String :=
  if spelling.toList.head?.any Text.isWord then keyword spelling else tag spelling

/-- Digits, between and after which there may be underscores. -/
def digitRun (cs : List Char) : List Char :=
  if cs.head?.any Char.isDigit then cs.takeWhile fun c => c.isDigit || c = '_' else []

/-- The longest number a text starts with: a sign, digits, and a point with digits,
    where only the first digits are needed. -/
def numeral? (cs : List Char) : Option (List Char) :=
  let (sign, cs) := match cs with
    | c :: rest => if c = '+' || c = '-' then ([c], rest) else ([], cs)
    | [] => ([], [])
  let whole := digitRun cs
  if whole.isEmpty then none
  else match cs.drop whole.length with
    | '.' :: rest =>
      let fraction := digitRun rest
      some (if fraction.isEmpty then sign ++ whole else sign ++ whole ++ '.' :: fraction)
    | _ => some (sign ++ whole)

/-- A decimal number; underscores in it do not count. -/
def number : Parser σ Float := fun c j =>
  match numeral? c.rest with
  | none => .miss c.index ["number"] j
  | some numeral =>
    match Number.ofChars? (numeral.filter (· ≠ '_')) with
    | some x => .ok x (c.skip numeral.length) j
    | none => .miss c.index ["number"] j

end Dialogue.Parser
