/-!
# SHA-1

The digest of twenty bytes of a list of bytes. The message is padded to whole blocks
of sixty-four bytes, each block is stretched to eighty words, and every word turns the
five words of the state once.
-/

namespace Dialogue.Digest.Sha1

/-- The five words that the blocks are mixed into. -/
structure State where
  /-- First word. -/
  a : UInt32
  /-- Second word. -/
  b : UInt32
  /-- Third word. -/
  c : UInt32
  /-- Fourth word. -/
  d : UInt32
  /-- Fifth word. -/
  e : UInt32

/-- The state before the first block. -/
def initial : State := ⟨0x67452301, 0xefcdab89, 0x98badcfe, 0x10325476, 0xc3d2e1f0⟩

/-- Rotates a word to the left. -/
def rotate (w n : UInt32) : UInt32 := (w <<< n) ||| (w >>> (32 - n))

/-- The bytes of a number, most significant first. -/
def bytesOf (count n : Nat) : List UInt8 :=
  (List.range count).map fun i => (n >>> (8 * (count - 1 - i))).toUInt8

/-- The number with the given bytes, most significant first. -/
def ofBytes (bs : List UInt8) : Nat := bs.foldl (fun n b => n * 256 + b.toNat) 0

/-- The message, a one bit, zeros up to a whole block, and the length in bits. -/
def padded (message : List UInt8) : List UInt8 :=
  -- The one bit takes a byte with seven zeros, and the length takes eight more bytes.
  let zeros := (119 - message.length % 64) % 64
  message ++ 0x80 :: List.replicate zeros 0 ++ bytesOf 8 (8 * message.length)

/-- Cuts a list into runs of `n`, the last one perhaps shorter. -/
def chunks {α : Type} (n : Nat) (l : List α) : List (List α) :=
  (List.range ((l.length + n - 1) / n)).map fun i => (l.drop (n * i)).take n

/-- The eighty words of a block, the last one first. -/
def schedule (block : List UInt8) : List UInt32 :=
  -- With the last word first, the one that is `n` places back has the index `n - 1`.
  let first := ((chunks 4 block).map fun w => (ofBytes w).toUInt32).reverse
  (List.range 64).foldl
    (fun ws _ => rotate (ws.getD 2 0 ^^^ ws.getD 7 0 ^^^ ws.getD 13 0 ^^^ ws.getD 15 0) 1 :: ws)
    first

/-- Mixes the word of round `t` into the state. -/
def round (s : State) (t : Nat) (w : UInt32) : State :=
  let (f, k) : UInt32 × UInt32 :=
    if t < 20 then ((s.b &&& s.c) ||| (~~~s.b &&& s.d), 0x5a827999)
    else if t < 40 then (s.b ^^^ s.c ^^^ s.d, 0x6ed9eba1)
    else if t < 60 then ((s.b &&& s.c) ||| (s.b &&& s.d) ||| (s.c &&& s.d), 0x8f1bbcdc)
    else (s.b ^^^ s.c ^^^ s.d, 0xca62c1d6)
  ⟨rotate s.a 5 + f + s.e + k + w, s.a, rotate s.b 30, s.c, s.d⟩

/-- Mixes a block into the state. -/
def absorb (s : State) (block : List UInt8) : State :=
  let t := (schedule block).reverse.zipIdx.foldl (fun t p => round t p.2 p.1) s
  ⟨s.a + t.a, s.b + t.b, s.c + t.c, s.d + t.d, s.e + t.e⟩

/-- The digest of a message. -/
def digest (message : List UInt8) : List UInt8 :=
  let s := (chunks 64 (padded message)).foldl absorb initial
  [s.a, s.b, s.c, s.d, s.e].flatMap fun w => bytesOf 4 w.toNat

/-- A number is given as many bytes as asked for. -/
@[simp] theorem length_bytesOf (count n : Nat) : (bytesOf count n).length = count := by
  rw [bytesOf, List.length_map, List.length_range]

/-- A digest has twenty bytes. -/
theorem length_digest (message : List UInt8) : (digest message).length = 20 := by
  simp only [digest, List.flatMap_cons, List.flatMap_nil, List.length_append, List.length_nil,
    length_bytesOf]

end Dialogue.Digest.Sha1
