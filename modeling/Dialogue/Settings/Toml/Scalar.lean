import Dialogue.Settings.Toml.Table
import Dialogue.Settings.Toml.Text

/-!
# Scalars

The numbers, dates and times of TOML. Digits may be separated by single underscores. An
integer has no needless zero in front and fits into sixty-four bits.
-/

namespace Dialogue.Settings.Toml

open Dialogue.Parser

/-- Digits with single underscores between them, from `cs` on: the digits and the rest. -/
def digits (isDigit : Char → Bool) : List Char → List Char × List Char
  | '_' :: c :: rest =>
    if isDigit c then
      let (ds, rest) := digits isDigit rest
      (c :: ds, rest)
    else ([], '_' :: c :: rest)
  | c :: rest =>
    if isDigit c then
      let (ds, rest) := digits isDigit rest
      (c :: ds, rest)
    else ([], c :: rest)
  | [] => ([], [])

/-- Digits that start with a digit. -/
def digits1? (isDigit : Char → Bool) (cs : List Char) : Option (List Char × List Char) :=
  if cs.head?.any isDigit then some (digits isDigit cs) else none

/-- An optional sign: is it a minus, and what follows. -/
def sign : List Char → Bool × List Char
  | '+' :: rest => (false, rest)
  | '-' :: rest => (true, rest)
  | cs => (false, cs)

/-- A whole decimal number: no zero in front, unless it is zero. -/
def whole? (cs : List Char) : Option (List Char × List Char) :=
  match cs with
  | '0' :: rest => some (['0'], rest)
  | cs => digits1? Char.isDigit cs

/-- Does an integer fit into sixty-four bits? -/
def fits (n : Int) : Bool := -0x8000000000000000 ≤ n && n < 0x8000000000000000

/-- The integer with a sign and a magnitude, if it fits. -/
def signed? (negative : Bool) (n : Nat) : Option Item :=
  let n : Int := if negative then -n else n
  if fits n then some (.integer n) else none

/-- The value of digits in a base. -/
def ofDigits (base : Nat) (ds : List Char) : Nat :=
  ds.foldl (fun n c =>
    base * n + (if c.isDigit then c.toNat - '0'.toNat else c.toLower.toNat - 'a'.toNat + 10)) 0

/-- A hexadecimal digit. -/
def isHexDigit (c : Char) : Bool :=
  c.isDigit || ('a' ≤ c && c ≤ 'f') || ('A' ≤ c && c ≤ 'F')

/-- An integer in base sixteen, eight, two or ten. -/
def integer? (cs : List Char) : Option (Item × List Char) :=
  let based (base : Nat) (isDigit : Char → Bool) (cs : List Char) :
      Option (Item × List Char) := do
    let (ds, rest) ← digits1? isDigit cs
    return (← signed? false (ofDigits base ds), rest)
  match cs with
  | '0' :: 'x' :: rest => based 16 isHexDigit rest
  | '0' :: 'o' :: rest => based 8 (fun c => '0' ≤ c && c ≤ '7') rest
  | '0' :: 'b' :: rest => based 2 (fun c => c = '0' || c = '1') rest
  | cs => do
    let (negative, cs) := sign cs
    let (ds, rest) ← whole? cs
    return (← signed? negative (ofDigits 10 ds), rest)

/-- A number with a fraction, an exponent or both, or one of the words for infinity and
    not-a-number. What is too large for a double is refused. -/
def float? (cs : List Char) : Option (Item × List Char) :=
  let (negative, cs) := sign cs
  let item (x : Float) : Item := .float (if negative then -x else x)
  if "inf".toList.isPrefixOf cs then some (item (1 / 0), cs.drop 3)
  else if "nan".toList.isPrefixOf cs then some (item (0 / 0), cs.drop 3)
  else do
    let (ds, rest) ← whole? cs
    let (fraction, rest) ← match rest with
      | '.' :: rest => digits1? Char.isDigit rest
      | rest => some ([], rest)
    let (exponent, rest) ← match rest with
      | e :: rest' =>
        if e = 'e' || e = 'E' then do
          let (down, rest) := sign rest'
          let (ds, rest) ← digits1? Char.isDigit rest
          some ((if down then -(ofDigits 10 ds : Int) else ofDigits 10 ds), rest)
        else if fraction.isEmpty then none else some (0, rest)
      | [] => if fraction.isEmpty then none else some (0, [])
    let x := Number.ofDecimal ds fraction exponent
    if x == 1 / 0 && !negative then none else some (item x, rest)

/-- A number of exactly so many digits, within bounds. -/
def counted? (count low high : Nat) (cs : List Char) : Option (Nat × List Char) :=
  let ds := cs.take count
  let n := ofDigits 10 ds
  if ds.length = count && ds.all Char.isDigit && low ≤ n && n ≤ high then
    some (n, cs.drop count)
  else none

/-- The rest behind a character. -/
def behind? (c : Char) : List Char → Option (List Char)
  | [] => none
  | x :: rest => if x = c then some rest else none

/-- The number of days of a month. -/
def daysOf (year month : Nat) : Nat :=
  if month = 2 then
    if year % 4 = 0 && (year % 100 ≠ 0 || year % 400 = 0) then 29 else 28
  else if month = 4 || month = 6 || month = 9 || month = 11 then 30
  else 31

/-- What follows a date. -/
def date? (cs : List Char) : Option (List Char) := do
  let (year, cs) ← counted? 4 0 9999 cs
  let (month, cs) ← counted? 2 1 12 (← behind? '-' cs)
  let (_, cs) ← counted? 2 1 (daysOf year month) (← behind? '-' cs)
  return cs

/-- What follows a time of day. A minute may have a leap second. -/
def time? (cs : List Char) : Option (List Char) := do
  let (_, cs) ← counted? 2 0 23 cs
  let (_, cs) ← counted? 2 0 59 (← behind? ':' cs)
  let (_, cs) ← counted? 2 0 60 (← behind? ':' cs)
  match cs with
  | '.' :: rest =>
    if rest.head?.any Char.isDigit then some (rest.dropWhile Char.isDigit) else none
  | cs => some cs

/-- What follows the offset of a time from the world's time, which may be left out. -/
def offset? (cs : List Char) : Option (List Char) :=
  match cs with
  | c :: rest =>
    if c = 'Z' || c = 'z' then some rest
    else if c = '+' || c = '-' then do
      let (_, rest) ← counted? 2 0 23 rest
      let (_, rest) ← counted? 2 0 59 (← behind? ':' rest)
      return rest
    else some cs
  | [] => some []

/-- A date, a time of day, or both with an optional offset. -/
def moment? (cs : List Char) : Option (Item × List Char) := do
  let rest ← match date? cs with
    | none => time? cs
    | some rest =>
      match rest with
      | c :: rest' =>
        if c = 'T' || c = 't' || c = ' ' then
          match time? rest' with
          | some rest => offset? rest
          | none => some rest
        else some rest
      | [] => some []
  return (.moment (String.ofList (cs.take (cs.length - rest.length))), rest)

/-- A date, a time or a number. -/
def number : Reader Item :=
  scan "number" moment? <|> scan "number" float? <|> scan "number" integer?

end Dialogue.Settings.Toml
