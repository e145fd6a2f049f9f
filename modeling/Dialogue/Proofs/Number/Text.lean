import Dialogue.Number.Text
import Dialogue.Proofs.Number.Shortest

/-!
# Numbers are told by their texts

Different numbers have different texts (`Number.text_injective`). The digits that are written for a
finite number can be read back as the decimal that they are written for
(`Number.readBack_positional`), and that decimal rounds to no other number. The rest is told by how
a text starts: with a sign, with a digit, or with a letter.

Two texts are words that a variable may have for its name, those of infinity and of what is not a
number (`Number.words`); all others start with a digit or a sign (`Number.text_cases`).
-/

namespace Dialogue.Number

open Float.Model.UnpackedFloat

variable {cs : List Char} {x y : Float}

/-! ## Decimals are read back -/

/-- The number that is read from digits, with a point between them or without one. -/
def readBack (cs : List Char) : ℚ :=
  ofDigits (cs.takeWhile Char.isDigit ++ (cs.dropWhile Char.isDigit).drop 1) /
    10 ^ ((cs.dropWhile Char.isDigit).drop 1).length

/-- The digits of a number are read back as the number. -/
theorem ofDigits_toDigits (n : Nat) : ofDigits (Nat.toDigits 10 n) = n :=
  Nat.ofDigitChars_ten_toDigits

/-- Zeros in front do not matter. -/
theorem ofDigits_zeros_append (n : Nat) (cs : List Char) :
    ofDigits (List.replicate n '0' ++ cs) = ofDigits cs := by
  change Nat.ofDigitChars 10 _ 0 = Nat.ofDigitChars 10 cs 0
  rw [Nat.ofDigitChars_append, Nat.ofDigitChars_replicate_zero, Nat.mul_zero]

/-- Each zero at the end multiplies by ten. -/
theorem ofDigits_append_zeros (n : Nat) (cs : List Char) :
    ofDigits (cs ++ List.replicate n '0') = ofDigits cs * 10 ^ n := by
  change Nat.ofDigitChars 10 _ 0 = Nat.ofDigitChars 10 cs 0 * 10 ^ n
  rw [Nat.ofDigitChars_append, Nat.ofDigitChars_replicate_zero, Nat.mul_comm]

/-- Digits alone are read as a whole number. -/
theorem readBack_whole (h : ∀ c ∈ cs, c.isDigit) : readBack cs = ofDigits cs := by
  rw [readBack, List.takeWhile_eq_self_iff.2 h, List.dropWhile_eq_nil_iff.2 h]
  simp

/-- Digits behind a point are read as tenths, hundredths and so on. -/
theorem readBack_point {whole : List Char} (h : ∀ c ∈ whole, c.isDigit) (fraction : List Char) :
    readBack (whole ++ '.' :: fraction) = ofDigits (whole ++ fraction) / 10 ^ fraction.length := by
  rw [readBack, List.takeWhile_append_of_pos h, List.dropWhile_append_of_pos h]
  simp [Char.isDigit]

/-- Decimal digits are digits. -/
theorem isDigit_toDigits (n : Nat) : ∀ c ∈ Nat.toDigits 10 n, c.isDigit := fun _ hc =>
  Nat.isDigit_of_mem_toDigits (by decide) (by decide) hc

/-- A decimal with as many places behind the point as its exponent says. -/
theorem Decimal.value_of_places (d : Decimal) (hneg : ¬0 ≤ d.exponent) {n : Nat}
    (hn : n = (-d.exponent).toNat) : (d.digits : ℚ) / 10 ^ n = d.value := by
  have hexponent : d.exponent = -(n : ℤ) := by omega
  rw [value, hexponent, zpow_neg, zpow_natCast, div_eq_mul_inv]

/-- A decimal is read back from the digits that are written for it. -/
theorem readBack_positional (d : Decimal) : readBack d.positional = d.value := by
  have hdigits := isDigit_toDigits d.digits
  rw [Decimal.positional]
  dsimp only
  split
  · rename_i hexponent
    have hzeros : ∀ c ∈ List.replicate d.exponent.toNat '0', c.isDigit := fun c hc => by
      rw [List.eq_of_mem_replicate hc]
      rfl
    rw [readBack_whole (List.forall_mem_append.2 ⟨hdigits, hzeros⟩), ofDigits_append_zeros,
      ofDigits_toDigits, Nat.cast_mul, Nat.cast_pow, Nat.cast_ofNat, ← zpow_natCast,
      Int.toNat_of_nonneg hexponent, Decimal.value]
  rename_i hneg
  -- As many digits are behind the point as the exponent says.
  split
  · rename_i hshort
    have hwhole : ∀ c ∈ ['0'], c.isDigit := List.forall_mem_singleton.2 rfl
    have hread := readBack_point hwhole (List.replicate
      ((-d.exponent).toNat - (Nat.toDigits 10 d.digits).length) '0' ++ Nat.toDigits 10 d.digits)
    rw [List.singleton_append] at hread
    rw [List.cons_append, List.cons_append, hread, ← List.append_assoc, ← List.replicate_one,
      List.replicate_append_replicate, ofDigits_zeros_append, ofDigits_toDigits]
    refine d.value_of_places hneg ?_
    rw [List.length_append, List.length_replicate]
    omega
  · rename_i hlong
    rw [readBack_point fun c hc => hdigits c (List.mem_of_mem_take hc), List.take_append_drop,
      ofDigits_toDigits]
    refine d.value_of_places hneg ?_
    rw [List.length_drop]
    omega

/-! ## Characters -/

/-- A character of the text of a number. -/
def isPart (x : Char) : Bool := x.isDigit || ['.', '-', 'i', 'n', 'f', 'N', 'a'].contains x

/-- A decimal is written with digits and a point. -/
theorem isPart_positional (d : Decimal) : ∀ c ∈ d.positional, isPart c := by
  have hdigits : ∀ c ∈ Nat.toDigits 10 d.digits, isPart c := fun c hc => by
    rw [isPart, isDigit_toDigits d.digits c hc, Bool.true_or]
  have hzeros (n : Nat) : ∀ c ∈ List.replicate n '0', isPart c := fun c hc => by
    rw [List.eq_of_mem_replicate hc]
    rfl
  rw [Decimal.positional]
  dsimp only
  split
  · exact List.forall_mem_append.2 ⟨hdigits, hzeros _⟩
  split
  · refine List.forall_mem_append.2 ⟨?_, hdigits⟩
    exact List.forall_mem_cons.2 ⟨rfl, List.forall_mem_cons.2 ⟨rfl, hzeros _⟩⟩
  · refine List.forall_mem_append.2 ⟨fun c hc => hdigits c (List.mem_of_mem_take hc), ?_⟩
    exact List.forall_mem_cons.2 ⟨rfl, fun c hc => hdigits c (List.mem_of_mem_drop hc)⟩

/-- A decimal is written with a digit first. -/
theorem Decimal.exists_positional (d : Decimal) : ∃ c cs, d.positional = c :: cs ∧ c.isDigit := by
  obtain ⟨c, cs, hcs⟩ := List.exists_cons_of_ne_nil (Nat.toDigits_ne_nil (b := 10) (n := d.digits))
  have hc : c.isDigit := isDigit_toDigits d.digits c (by rw [hcs]; exact List.mem_cons_self)
  rw [Decimal.positional]
  dsimp only
  split
  · exact ⟨c, _, by rw [hcs, List.cons_append], hc⟩
  split
  · exact ⟨'0', _, rfl, rfl⟩
  · rename_i hlong
    obtain ⟨n, hn⟩ : ∃ n, (Nat.toDigits 10 d.digits).length - (-d.exponent).toNat = n + 1 :=
      ⟨_, (Nat.sub_add_cancel (by omega)).symm⟩
    exact ⟨c, _, by rw [hn, hcs, List.take_succ_cons, List.cons_append], hc⟩

/-- What is written without a sign is the word for infinity, or a decimal that rounds to the
    number. -/
theorem magnitude_cases (h : unsignedBits x ≤ infinityBits) :
    magnitude x = "inf".toList ∧ unsignedBits x = infinityBits ∨
      ∃ d : Decimal, magnitude x = d.positional ∧ unsignedBits x < infinityBits ∧
        d.value ∈ (Rounding.of (mantissaExponent x).1 (mantissaExponent x).2).numbers := by
  rw [magnitude]
  split
  · exact .inl ⟨rfl, ‹_›⟩
  · rename_i hne
    have hlt := Nat.lt_of_le_of_ne h hne
    split
    · rename_i hzero
      have hform : mantissaExponent x = (0, -1074) := by
        rw [mantissaExponent, hzero]
        rfl
      refine .inr ⟨⟨0, 0⟩, rfl, hlt, ?_⟩
      rw [hform]
      exact Rounding.inside_iff.1 (by decide +kernel)
    · exact .inr ⟨shortest x, rfl, hlt, shortest_mem hlt⟩

/-- What is written without a sign starts with a digit, or like the word for infinity. -/
theorem magnitude_starts (h : unsignedBits x ≤ infinityBits) :
    ∃ c cs, magnitude x = c :: cs ∧ (c.isDigit ∨ c = 'i') := by
  obtain ⟨hword, -⟩ | ⟨d, hd, -⟩ := magnitude_cases h
  · exact ⟨'i', _, hword, .inr rfl⟩
  · obtain ⟨c, cs, hcs, hc⟩ := d.exists_positional
    exact ⟨c, cs, hd.trans hcs, .inl hc⟩

/-- Without its sign a number starts with none. -/
theorem magnitude_ne_sign (h : unsignedBits x ≤ infinityBits) (cs : List Char) :
    magnitude x ≠ '-' :: cs := by
  obtain ⟨c, xs, hxs, hc⟩ := magnitude_starts h
  rw [hxs]
  rintro ⟨⟩
  cases hc <;> contradiction

/-! ## Bits -/

/-- A number is told by its bits. -/
theorem eq_of_toBits (h : x.toBits = y.toBits) : x = y := by
  obtain ⟨⟨bits, _⟩⟩ := x
  obtain ⟨⟨bits', _⟩⟩ := y
  cases h
  rfl

/-- A number is told by its sign and the other bits. -/
theorem eq_of_unsignedBits (h : unsignedBits x = unsignedBits y)
    (hsign : signBit ≤ x.toBits.toNat ↔ signBit ≤ y.toBits.toNat) : x = y := by
  refine eq_of_toBits (UInt64.toNat_inj.1 ?_)
  have hx := x.toBits.toNat_lt
  have hy := y.toBits.toNat_lt
  rw [unsignedBits, unsignedBits, signBit] at h
  rw [signBit] at hsign
  omega

/-- What is not a number has its bits from the format. -/
theorem toBits_of_notANumber (h : infinityBits < unsignedBits x) :
    x.toBits.toBitVec = packedNaN .binary64 := by
  have hbits : x.toModel.toBits.toNat = x.toBits.toNat := rfl
  rw [infinityBits, unsignedBits, signBit] at h
  refine x.toModel.valid.eq_packedNaN (BitVec.eq_of_toNat_eq ?_) fun hzero => ?_
  · simp [unpackExponent, Nat.shiftRight_eq_div_pow]
    omega
  · have hmantissa := congrArg BitVec.toNat hzero
    simp [unpackMantissa] at hmantissa
    omega

/-! ## Texts -/

/-- What is not a number is written as a word. -/
theorem text_of_notANumber (h : infinityBits < unsignedBits x) : text x = "NaN" := if_pos h

/-- A number is written with its sign before the rest. -/
theorem toList_text (h : unsignedBits x ≤ infinityBits) : (text x).toList =
    if signBit ≤ x.toBits.toNat then '-' :: magnitude x else magnitude x := by
  rw [text, if_neg (Nat.not_lt.2 h), String.toList_ofList]

/-- The words that are written for numbers. A variable may have them for its name as well. -/
def words : List String := ["NaN", "inf"]

/-- What is written for a number is one of two words, or starts with a digit or a sign. -/
theorem text_cases (x : Float) : text x ∈ words ∨
    ∃ c cs, (text x).toList = c :: cs ∧ (c.isDigit ∨ c = '-') := by
  obtain hnan | hle := Nat.lt_or_ge infinityBits (unsignedBits x)
  · rw [text_of_notANumber hnan]
    exact .inl List.mem_cons_self
  have htext := toList_text hle
  split at htext
  · exact .inr ⟨'-', _, htext, .inr rfl⟩
  · obtain ⟨hword, -⟩ | ⟨d, hd, -⟩ := magnitude_cases hle
    · have hinf : text x = "inf" := String.toList_inj.1 (htext.trans hword)
      rw [hinf]
      exact .inl (List.mem_cons_of_mem _ (List.mem_singleton_self _))
    · obtain ⟨c, cs, hcs, hc⟩ := d.exists_positional
      exact .inr ⟨c, cs, htext.trans (hd.trans hcs), .inl hc⟩

/-- A number is written with digits, a point, a sign, or as one of two words. -/
theorem text_spec (x : Float) : (text x).toList ≠ [] ∧ ∀ c ∈ (text x).toList, isPart c := by
  obtain hnan | hle := Nat.lt_or_ge infinityBits (unsignedBits x)
  · rw [text_of_notANumber hnan]
    exact ⟨by decide, List.all_eq_true.1 (by decide)⟩
  have hmagnitude : magnitude x ≠ [] ∧ ∀ c ∈ magnitude x, isPart c := by
    obtain ⟨hword, -⟩ | ⟨d, hd, -⟩ := magnitude_cases hle
    · rw [hword]
      exact ⟨by decide, List.all_eq_true.1 (by decide)⟩
    · obtain ⟨c, cs, hcs, -⟩ := d.exists_positional
      rw [hd]
      exact ⟨by rw [hcs]; exact List.cons_ne_nil c cs, isPart_positional d⟩
  rw [toList_text hle]
  split
  · exact ⟨List.cons_ne_nil _ _, List.forall_mem_cons.2 ⟨rfl, hmagnitude.2⟩⟩
  · exact hmagnitude

/-- Without their signs, numbers are told by what is written. -/
theorem unsignedBits_of_magnitude (hx : unsignedBits x ≤ infinityBits)
    (hy : unsignedBits y ≤ infinityBits) (h : magnitude x = magnitude y) :
    unsignedBits x = unsignedBits y := by
  have hword (d : Decimal) : d.positional ≠ "inf".toList := by
    obtain ⟨c, cs, hcs, hc⟩ := d.exists_positional
    rw [hcs]
    rintro ⟨⟩
    cases hc
  obtain ⟨hinf, hbits⟩ | ⟨d, hd, hlt, hmem⟩ := magnitude_cases hx
  · obtain ⟨-, hbits'⟩ | ⟨d', hd', -⟩ := magnitude_cases hy
    · rw [hbits, hbits']
    · exact absurd (hd'.symm.trans (h.symm.trans hinf)) (hword d')
  · obtain ⟨hinf', -⟩ | ⟨d', hd', hlt', hmem'⟩ := magnitude_cases hy
    · exact absurd (hd.symm.trans (h.trans hinf')) (hword d)
    · have hvalue : d.value = d'.value := by
        rw [← readBack_positional, ← readBack_positional, ← hd, ← hd', h]
      rw [← hvalue] at hmem'
      obtain ⟨hc, -, hbits⟩ := mantissaExponent_spec hlt
      obtain ⟨hc', -, hbits'⟩ := mantissaExponent_spec hlt'
      -- One decimal rounds to both, so they have one mantissa and one exponent.
      obtain ⟨hm, he⟩ := eq_of_mem_numbers hc hc' hmem hmem'
      rw [hbits, hbits', hm, he]

/-- What is not a number is written like none. -/
theorem text_ne_of_notANumber (hx : infinityBits < unsignedBits x)
    (hy : unsignedBits y ≤ infinityBits) : text x ≠ text y := by
  intro h
  rw [text_of_notANumber hx] at h
  have hlist := (congrArg String.toList h).trans (toList_text hy)
  split at hlist
  · cases hlist
  · obtain ⟨c, cs, hcs, hc⟩ := magnitude_starts hy
    cases hlist.trans hcs
    cases hc <;> contradiction

/-- Texts show the signs of numbers, and what is written behind them. -/
theorem sign_of_text_eq (hx : unsignedBits x ≤ infinityBits) (hy : unsignedBits y ≤ infinityBits)
    (h : text x = text y) :
    (signBit ≤ x.toBits.toNat ↔ signBit ≤ y.toBits.toNat) ∧ magnitude x = magnitude y := by
  have hlist := (toList_text hx).symm.trans ((congrArg String.toList h).trans (toList_text hy))
  by_cases hsx : signBit ≤ x.toBits.toNat <;> by_cases hsy : signBit ≤ y.toBits.toNat
  · rw [if_pos hsx, if_pos hsy] at hlist
    exact ⟨iff_of_true hsx hsy, (List.cons.inj hlist).2⟩
  · rw [if_pos hsx, if_neg hsy] at hlist
    exact absurd hlist.symm (magnitude_ne_sign hy _)
  · rw [if_neg hsx, if_pos hsy] at hlist
    exact absurd hlist (magnitude_ne_sign hx _)
  · rw [if_neg hsx, if_neg hsy] at hlist
    exact ⟨iff_of_false hsx hsy, hlist⟩

/-- Different numbers have different texts. -/
theorem text_injective : Function.Injective text := by
  intro x y h
  obtain hx | hx := Nat.lt_or_ge infinityBits (unsignedBits x) <;>
    obtain hy | hy := Nat.lt_or_ge infinityBits (unsignedBits y)
  · have hbits := (toBits_of_notANumber hx).trans (toBits_of_notANumber hy).symm
    exact eq_of_toBits (UInt64.toBitVec_inj.1 hbits)
  · exact absurd h (text_ne_of_notANumber hx hy)
  · exact absurd h.symm (text_ne_of_notANumber hy hx)
  · obtain ⟨hsign, hmagnitude⟩ := sign_of_text_eq hx hy h
    exact eq_of_unsignedBits (unsignedBits_of_magnitude hx hy hmagnitude) hsign

/-- The seventeenth digit may be needed to tell a number from the next one. -/
example : text 0.30000000000000004 = "0.30000000000000004" ∧ text 0.3 = "0.3" := by decide +kernel

end Dialogue.Number
