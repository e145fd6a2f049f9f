import Dialogue.Parser.Token

/-!
# Texts

The four ways to write a text in TOML: between quotes, where a backslash escapes, or
between apostrophes, where it does not; each on one line, or over several lines between
three marks.
-/

namespace Dialogue.Settings.Toml

/-- A parser that notes nothing. -/
abbrev Reader (α : Type) := Parser Unit α

/-- Reads what `f` takes off the text ahead. -/
def scan {α : Type} (what : String) (f : List Char → Option (α × List Char)) : Reader α :=
  fun c j =>
    match f c.rest with
    | some (a, rest) => .ok a (c.skip (c.rest.length - rest.length)) j
    | none => .miss c.index [what] j

/-- A character that may stand in a text or a comment: no control character but the tab. -/
def isPlain (c : Char) : Bool := c = '\t' || (0x20 ≤ c.toNat && c.toNat ≠ 0x7f)

/-- A character with the given hexadecimal digits. -/
def ofHex? (digits : List Char) : Option Char :=
  let value? (c : Char) : Option Nat :=
    if c.isDigit then some (c.toNat - '0'.toNat)
    else if 'a' ≤ c && c ≤ 'f' then some (c.toNat - 'a'.toNat + 10)
    else if 'A' ≤ c && c ≤ 'F' then some (c.toNat - 'A'.toNat + 10)
    else none
  do
    let n ← digits.foldlM (fun n c => (value? c).map (16 * n + ·)) 0
    if n.isValidChar then some (Char.ofNat n) else none

/-- The character that a letter after a backslash stands for. -/
def escaped? : Char → Option Char
  | 'b' => some '\x08'
  | 't' => some '\t'
  | 'n' => some '\n'
  | 'f' => some '\x0c'
  | 'r' => some '\r'
  | '"' => some '"'
  | '\\' => some '\\'
  | _ => none

/-- Puts a character before the text that is read from the rest. -/
def before (c : Char) (r : Option (List Char × List Char)) : Option (List Char × List Char) :=
  r.map fun (cs, rest) => (c :: cs, rest)

/-- Does the text go on with a line break? -/
def startsBreak (cs : List Char) : Bool :=
  "\n".toList.isPrefixOf cs || "\r\n".toList.isPrefixOf cs

/-- The rest of a text on one line after its opening mark. -/
def lineBody (mark : Char) (escapes : Bool) : List Char → Option (List Char × List Char)
  | [] => none
  | c :: rest =>
    if c = mark then some ([], rest)
    else if c = '\\' && escapes then
      match rest with
      | 'u' :: a :: b :: c :: d :: rest => do
        before (← ofHex? [a, b, c, d]) (lineBody mark escapes rest)
      | 'U' :: a :: b :: c :: d :: e :: f :: g :: h :: rest => do
        before (← ofHex? [a, b, c, d, e, f, g, h]) (lineBody mark escapes rest)
      | x :: rest => do before (← escaped? x) (lineBody mark escapes rest)
      | [] => none
    else if isPlain c then before c (lineBody mark escapes rest)
    else none

/-- The rest of a text over several lines after its opening marks. Up to two marks may
    stand before the closing ones. A line break is a line feed, however it is written.
    Behind a backslash at the end of a line, `folding` drops white space. -/
def linesBody (mark : Char) (escapes : Bool) :
    (folding : Bool) → List Char → Option (List Char × List Char)
  | _, [] => none
  | folding, c :: rest =>
    if folding && (Text.isBlank c || startsBreak (c :: rest)) then
      linesBody mark escapes true rest
    else if c = mark then
      -- The last three of up to five marks in a row close the text.
      let more := (rest.takeWhile (· = mark)).length
      if more = 2 then some ([], rest.drop 2)
      else if more < 5 then before c (linesBody mark escapes false rest)
      else none
    else if c = '\\' && escapes then
      if startsBreak (rest.dropWhile Text.isBlank) then linesBody mark escapes true rest
      else match rest with
        | 'u' :: a :: b :: c :: d :: rest => do
          before (← ofHex? [a, b, c, d]) (linesBody mark escapes false rest)
        | 'U' :: a :: b :: c :: d :: e :: f :: g :: h :: rest => do
          before (← ofHex? [a, b, c, d, e, f, g, h]) (linesBody mark escapes false rest)
        | x :: rest => do before (← escaped? x) (linesBody mark escapes false rest)
        | [] => none
    else if c = '\r' && startsBreak (c :: rest) then linesBody mark escapes false rest
    else if c = '\n' || isPlain c then before c (linesBody mark escapes false rest)
    else none

/-- A text that starts with a mark, on one line or over several. A line break directly
    after the opening marks is dropped. -/
def textBody (mark : Char) (escapes : Bool) (cs : List Char) : Option (List Char × List Char) :=
  if [mark, mark, mark].isPrefixOf cs then
    let rest := cs.drop 3
    let rest :=
      if startsBreak rest then rest.drop (if rest.head? = some '\r' then 2 else 1) else rest
    linesBody mark escapes false rest
  else lineBody mark escapes (cs.drop 1)

/-- A text in one of the four ways. -/
def text : Reader String :=
  String.ofList <$> scan "text" fun cs =>
    match cs.head? with
    | some '"' => textBody '"' true cs
    | some '\'' => textBody '\'' false cs
    | _ => none

/-- A text on one line, as a key may be written. -/
def quotedKey : Reader String :=
  String.ofList <$> scan "key" fun cs =>
    match cs with
    | '"' :: rest => lineBody '"' true rest
    | '\'' :: rest => lineBody '\'' false rest
    | _ => none

end Dialogue.Settings.Toml
