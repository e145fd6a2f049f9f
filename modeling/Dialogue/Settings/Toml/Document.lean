import Dialogue.Parser.Repetition
import Dialogue.Settings.Toml.Scalar

/-!
# Documents

A TOML document is a list of lines: keys with what stands under them, and headers of
tables. Lists and tables may be written in place, one in another, up to a fixed depth.
-/

namespace Dialogue.Settings.Toml

open Dialogue.Parser

/-- A line break: a line feed, perhaps after a carriage return. -/
def lineBreak : Reader Unit := (fun _ => ()) <$> (tag "\n" <|> tag "\r\n")

/-- A comment, up to the end of the line. -/
def comment : Reader Unit := do
  let _ ← char '#'
  discard (takeWhile isPlain)

/-- White space, line breaks and comments. -/
def gap : Reader Unit := do
  -- A comment counts with the line break behind it.
  let item : Reader Unit :=
    (fun _ => ()) <$> blanks1 <|> lineBreak <|> comment <* lookAhead lineBreak
  discard (many item 0)

/-- A character of a key that is not quoted. -/
def isKeyChar (c : Char) : Bool := c.isAlphanum || c = '_' || c = '-'

/-- A part of a key. -/
def simpleKey : Reader String :=
  quotedKey <|> String.ofList <$> takeWhile1 isKeyChar "key"

/-- How deep lists and tables may stand in each other, and how many parts a key may have. -/
def depthLimit : Nat := 79

/-- A key, its parts separated by points. -/
def key : Reader (List String) := do
  let point : Reader Char := blanks *> char '.' <* blanks
  let first ← simpleKey
  let rest ← many (point *> simpleKey) 0
  let path := first :: rest
  if path.length ≤ depthLimit then return path else expected "shorter key"

/-- A key and what stands under it. -/
def pair (value : Reader Item) : Reader (List String × Item) := do
  let path ← key
  let _ ← blanks
  let _ ← char '='
  let _ ← blanks
  let item ← value
  return (path, item)

/-- A list in place. There may be a comma after its last item. -/
def array (value : Reader Item) : Reader Item := do
  let _ ← char '['
  gap
  let separated : Reader Item := gap *> char ',' *> gap *> value
  let items ← optional do
    let first ← value
    let rest ← many separated 0
    let _ ← optional (gap *> char ',')
    return first :: rest
  gap
  let _ ← char ']'
  return .array (items.getD [])

/-- A table in place, on one line. -/
def inlineTable (value : Reader Item) : Reader Item := do
  let _ ← char '\x7b'
  let _ ← blanks
  let pairs ← optional do
    let first ← pair value
    let rest ← many (blanks *> char ',' *> blanks *> pair value) 0
    return first :: rest
  let _ ← blanks
  let _ ← char '\x7d'
  let added := (pairs.getD []).foldlM (fun t (path, item) => Table.addPair path item .header t) []
  match added with
  | some t => return .table .inline t
  | none => expected "another key"

/-- A value that holds no others. -/
def scalar : Reader Item :=
  Item.text <$> text
    <|> (fun _ => Item.boolean true) <$> tag "true"
    <|> (fun _ => Item.boolean false) <$> tag "false"
    <|> number

/-- A value, with others in it up to a depth. -/
def value : (depth : Nat) → Reader Item
  | 0 => scalar
  | depth + 1 => scalar <|> array (value depth) <|> inlineTable (value depth)

/-- The header of a table, or of one of several. -/
def header : Reader Line := do
  let between : Reader (List String) := blanks *> key <* blanks
  (do
      let _ ← tag "[["
      let path ← between
      let _ ← tag "]]"
      return .tables path)
    <|> (do
      let _ ← char '['
      let path ← between
      let _ ← char ']'
      return .header path)

/-- A line that says something. -/
def line : Reader Line :=
  header <|> (fun (path, item) => Line.pair path item) <$> pair (value depthLimit)

/-- A whole document. -/
def document : Reader (List Line) := do
  let _ ← optional (char '\ufeff')
  let ending : Reader Unit := blanks *> (discard (optional comment)) *> (lineBreak <|> eof)
  -- A line may be empty, or have a comment only.
  let full : Reader (Option Line) := do
    let line ← blanks *> optional line
    ending
    return line
  let lines ← many full 0
  eof
  return lines.filterMap id

/-- The table that a document describes. -/
def table? (source : String) : Option Table :=
  match document (.ofChars source.toList 1) () with
  | .ok lines _ _ => Table.addLines [] lines []
  | _ => none

end Dialogue.Settings.Toml
