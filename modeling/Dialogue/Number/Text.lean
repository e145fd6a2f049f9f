import Dialogue.Number.Shortest

/-!
# The text of a number

Numbers are doubles. They are written with the fewest digits that read back, always
positionally, and whole numbers without a point (`Number.text`). They are read from
decimals with an optional sign, fraction and exponent, or from the words for infinity
and not-a-number (`Number.ofText?`); a decimal stands for the nearest double.
-/

namespace Dialogue.Number

/-- Writes `d` without an exponent. -/
def Decimal.positional (d : Decimal) : List Char :=
  let ds := Nat.toDigits 10 d.digits
  if 0 ≤ d.exponent then ds ++ List.replicate d.exponent.toNat '0'
  else
    let places := (-d.exponent).toNat
    if ds.length ≤ places then '0' :: '.' :: List.replicate (places - ds.length) '0' ++ ds
    else ds.take (ds.length - places) ++ '.' :: ds.drop (ds.length - places)

/-- The text of a number that is not not-a-number, its sign left out. -/
def magnitude (x : Float) : List Char :=
  if unsignedBits x = infinityBits then "inf".toList
  else if unsignedBits x = 0 then ['0']
  else (shortest x).positional

/-- The text of a number: the shortest decimal that reads back, written positionally.
    The sign of zero is kept. -/
def text (x : Float) : String :=
  -- The bits beyond those of infinity stand for no number, whatever the sign is.
  if infinityBits < unsignedBits x then "NaN"
  else String.ofList (if signBit ≤ x.toBits.toNat then '-' :: magnitude x else magnitude x)

/-- The value of a run of decimal digits. -/
def ofDigits (cs : List Char) : Nat := cs.foldl (fun n c => 10 * n + (c.toNat - '0'.toNat)) 0

/-- The nearest double to the decimal with the given digits before and after its point,
    times a power of ten. -/
def ofDecimal (whole fraction : List Char) (exponent : Int) : Float :=
  let e := exponent - fraction.length
  Float.ofScientific (ofDigits (whole ++ fraction)) (e < 0) e.natAbs

/-- Reads a whole number with an optional sign. -/
def signed? (cs : List Char) : Option Int :=
  let run (ds : List Char) (sign : Int) : Option Int :=
    if !ds.isEmpty && ds.all Char.isDigit then some (sign * ofDigits ds) else none
  match cs with
  | '-' :: ds => run ds (-1)
  | '+' :: ds => run ds 1
  | ds => run ds 1

/-- Reads a number without its sign. -/
def magnitude? (cs : List Char) : Option Float :=
  let word := cs.map Char.toLower
  if word = "inf".toList || word = "infinity".toList then some (1 / 0)
  else if word = "nan".toList then some (0 / 0)
  else
    let whole := cs.takeWhile Char.isDigit
    let rest := cs.dropWhile Char.isDigit
    let (fraction, rest) := match rest with
      | '.' :: r => (r.takeWhile Char.isDigit, r.dropWhile Char.isDigit)
      | r => ([], r)
    if whole.isEmpty && fraction.isEmpty then none
    else match rest with
      | [] => some (ofDecimal whole fraction 0)
      | e :: r =>
        if e = 'e' || e = 'E' then (signed? r).map (ofDecimal whole fraction) else none

/-- Reads a number from the whole of `cs`. -/
def ofChars? (cs : List Char) : Option Float :=
  match cs with
  | '-' :: r => (magnitude? r).map (- ·)
  | '+' :: r => magnitude? r
  | r => magnitude? r

/-- Reads a number from the whole of a text. -/
def ofText? (s : String) : Option Float := ofChars? s.toList

end Dialogue.Number
