/-!
# Base64

Three bytes are written as four letters of an alphabet of sixty-four; a last group of
one or two bytes is filled up with `=`.
-/

namespace Dialogue.Digest.Base64

/-- The letters of the digits 0 to 63. -/
def alphabet : List Char :=
  "ABCDEFGHIJKLMNOPQRSTUVWXYZabcdefghijklmnopqrstuvwxyz0123456789+/".toList

/-- The letter of the lowest six bits of `n`. -/
def letter (n : Nat) : Char := alphabet.getD (n % 64) '='

/-- The letters of a list of bytes. -/
def encode : List UInt8 → List Char
  | [] => []
  | [a] =>
    let n := a.toNat * 65536
    [letter (n / 262144), letter (n / 4096), '=', '=']
  | [a, b] =>
    let n := a.toNat * 65536 + b.toNat * 256
    [letter (n / 262144), letter (n / 4096), letter (n / 64), '=']
  | a :: b :: c :: rest =>
    let n := a.toNat * 65536 + b.toNat * 256 + c.toNat
    letter (n / 262144) :: letter (n / 4096) :: letter (n / 64) :: letter n :: encode rest

/-- Every three bytes, and what is left of them at the end, are four letters. -/
theorem length_encode (bs : List UInt8) : (encode bs).length = (bs.length + 2) / 3 * 4 := by
  fun_induction encode bs with
  | case1 => rfl
  | case2 | case3 => simp
  | case4 a b c rest n ih =>
    simp only [List.length_cons, ih]
    omega

end Dialogue.Digest.Base64
