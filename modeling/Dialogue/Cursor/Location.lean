import Dialogue.Cursor

/-!
# Locations

A *location* is a place in a source for a reader: its line and column, counted from
one, and its offsets in characters and bytes. A line ends with a line feed, a carriage
return, or both in this order.

A *source map* finds the locations of a source. It holds the offsets at which the lines
start, in a table that is searched by halving.
-/

namespace Dialogue

/-- A place in a source. -/
@[ext] structure Location where
  /-- The number of characters before it. -/
  offset : Nat
  /-- The number of bytes before it. -/
  byteOffset : Nat
  /-- The number of its line, from one. -/
  line : Nat
  /-- One more than the number of characters before it on its line. -/
  column : Nat
  deriving DecidableEq

namespace Location

/-- Does `c` end its line, if `rest` follows it? -/
def endsLine (c : Char) (rest : List Char) : Bool :=
  c = '\n' || (c = '\r' && rest.head? ≠ some '\n')

/-- The line and the column. -/
def text (l : Location) : String := s!"{l.line}:{l.column}"

end Location

/-- Is an offset between two characters of a source, or at an end? -/
def isBoundary : (source : List Char) → (offset : Nat) → Bool
  | _, 0 => true
  | [], _ + 1 => false
  | c :: cs, offset + 1 => c.utf8Size ≤ offset + 1 && isBoundary cs (offset + 1 - c.utf8Size)

/-- The last boundary that is not past an offset. -/
def lastBoundary (source : List Char) : (offset : Nat) → Nat
  | 0 => 0
  | offset + 1 =>
    if isBoundary source (offset + 1) then offset + 1 else lastBoundary source offset

/-- Halves a part of a sorted table, which has `size` entries from `base` on, until there is one
    entry left: the last one that is not above `x`, if there is one. -/
def bisect (table : Array Nat) (x base size : Nat) : Nat :=
  if 1 < size then
    let half := size / 2
    if x < table.getD (base + half) 0 then bisect table x base (size - half)
    else bisect table x (base + half) (size - half)
  else base
termination_by size

/-- Searches a sorted table for `x`. If it is not there, the index is the one to put it in at. -/
def search (table : Array Nat) (x : Nat) : Except Nat Nat :=
  if table.isEmpty then .error 0
  else
    let i := bisect table x 0 table.size
    let y := table.getD i 0
    if y = x then .ok i else .error (if y < x then i + 1 else i)

/-- A source, and where its lines start. -/
structure SourceMap where
  /-- The source. -/
  source : List Char
  /-- The offsets at which its lines start, in their order. -/
  lineStarts : Array Nat

namespace SourceMap

/-- The offsets at which lines start behind those that end in `rest`, which is at `index`. -/
def startsFrom : (index : Nat) → (rest : List Char) → List Nat
  | _, [] => []
  | index, c :: rest =>
    let next := index + c.utf8Size
    if Location.endsLine c rest then next :: startsFrom next rest else startsFrom next rest

/-- The map of a source. -/
def ofSource (source : List Char) : SourceMap := ⟨source, (0 :: startsFrom 0 source).toArray⟩

/-- The index of the line that an offset is on. -/
def lineIndex (m : SourceMap) (offset : Nat) : Nat :=
  match search m.lineStarts offset with
  | .ok i => i
  -- The line is the one that starts before the offset.
  | .error i => i - 1

/-- The location of a boundary. -/
def locationAt (m : SourceMap) (boundary : Nat) : Location :=
  let index := m.lineIndex boundary
  let lineStart := m.lineStarts.getD index 0
  { offset := Cursor.fitting boundary m.source
    byteOffset := boundary
    line := index + 1
    column := Cursor.fitting (boundary - lineStart)
      (m.source.drop (Cursor.fitting lineStart m.source)) + 1 }

/-- The location of an offset, which is at the last boundary that is not past it. -/
def locate (m : SourceMap) (offset : Nat) : Location :=
  m.locationAt (lastBoundary m.source (min offset (byteSize m.source)))

end SourceMap

/-- The place of an offset of a source. -/
def Location.of (source : List Char) (offset : Nat) : Location :=
  (SourceMap.ofSource source).locate offset

end Dialogue
