import Dialogue.Proofs.Grammar.Written
import Dialogue.Proofs.Parser.Scan

/-!
# Decimals

A decimal is read as far as it goes, unless what follows would go on with it
(`Numeral.numeral?_append`). Without its underscores it is a text that has its value as a number
(`Numeral.ofChars?_eq`), so the token for numbers answers its value (`Numeral.number_eq`).
-/

namespace Dialogue

open Dialogue.Parser

namespace Digits

variable {d : Digits} {zs : List Char}

/-- Digits start with a digit. -/
theorem exists_first (d : Digits) : ∃ x xs, d.chars = x :: xs ∧ x.isDigit := by
  have h := d.first
  cases hd : d.chars with
  | nil => rw [hd] at h; cases h
  | cons x xs => exact ⟨x, xs, rfl, by rwa [hd] at h⟩

/-- Digits are read as far as they go. -/
theorem digitRun_append (h : ∀ x ∈ zs.head?, (x.isDigit || x = '_') = false) :
    digitRun (d.chars ++ zs) = d.chars := by
  obtain ⟨x, xs, hd, hx⟩ := d.exists_first
  rw [digitRun, if_pos (by simp [hd, hx]), takeWhile_append_of_head h, takeWhile_of_all d.only]

/-- Without their underscores, digits start with a digit. -/
theorem exists_plain (d : Digits) : ∃ x xs, d.plain = x :: xs ∧ x.isDigit := by
  obtain ⟨x, xs, hd, hx⟩ := d.exists_first
  have hne : x ≠ '_' := by rintro rfl; cases hx
  exact ⟨x, xs.filter (· ≠ '_'), by rw [plain, hd, List.filter_cons_of_pos (by simpa)], hx⟩

/-- Without underscores there are only digits. -/
theorem isDigit_of_mem_plain (d : Digits) : ∀ x ∈ d.plain, x.isDigit := by
  intro x hx
  obtain ⟨hmem, hne⟩ := List.mem_filter.1 hx
  simpa [of_decide_eq_true hne] using d.only x hmem

end Digits

namespace Numeral

variable (n : Numeral) {zs : List Char}

/-- Without its sign a decimal starts with a digit. -/
theorem exists_unsigned : ∃ x xs, n.unsigned = x :: xs ∧ x.isDigit := by
  obtain ⟨x, xs, hd, hx⟩ := n.whole.exists_first
  exact ⟨x, xs ++ n.fraction.elim [] ('.' :: ·.chars), by rw [unsigned, hd, List.cons_append], hx⟩

/-- The sign is split off, whatever follows. -/
theorem signed_append (zs : List Char) :
    signed (n.chars ++ zs) = (n.sign.toList, n.unsigned ++ zs) := by
  rw [chars]
  cases hsign : n.sign with
  | some c =>
    have hc : (c = '+' || c = '-') = true := by simpa using n.isSign c hsign
    rw [Option.toList_some, List.append_assoc, List.singleton_append, signed, if_pos hc]
  | none =>
    obtain ⟨x, xs, hn, hx⟩ := n.exists_unsigned
    rw [Option.toList_none, List.nil_append, hn, List.cons_append, signed, if_neg]
    intro h
    simp only [Bool.or_eq_true, decide_eq_true_eq] at h
    rcases h with rfl | rfl <;> cases hx

/-- A decimal is read as far as it goes. -/
theorem numeral?_append (h : ∀ x ∈ zs.head?, (x.isDigit || x = '_') = false ∧ x ≠ '.') :
    numeral? (n.chars ++ zs) = some n.chars := by
  -- The digits of the whole part end at the decimal point or at the end of the number.
  have hwhole : digitRun (n.unsigned ++ zs) = n.whole.chars := by
    rw [unsigned, List.append_assoc]
    refine Digits.digitRun_append fun x hx => ?_
    cases hf : n.fraction with
    | none =>
      rw [hf] at hx
      exact (h x hx).1
    | some f =>
      rw [hf] at hx
      cases hx
      rfl
  obtain ⟨x, xs, hd, -⟩ := n.whole.exists_first
  have hne : n.whole.chars.isEmpty = false := by rw [hd]; rfl
  rw [numeral?_signed, signed_append]
  dsimp only
  rw [hwhole, hne, if_neg Bool.false_ne_true, unsigned, List.append_assoc, List.drop_left, chars,
    unsigned]
  cases hf : n.fraction with
  | none =>
    rw [Option.elim_none, List.nil_append, List.append_nil]
    split
    · exact absurd rfl (h _ rfl).2
    · rfl
  | some f =>
    obtain ⟨y, ys, hy, -⟩ := f.exists_first
    rw [Option.elim_some, List.cons_append]
    simp only
    rw [Digits.digitRun_append fun x hx => (h x hx).1, if_neg (by simp [hy]), List.append_assoc]

end Numeral

/-! ## Values -/

/-- Digits have no lower case. -/
theorem toLower_of_isDigit {x : Char} (h : x.isDigit) : x.toLower = x := by
  have hx : ¬(x.val ≥ 65 ∧ x.val ≤ 90) := by
    simp [Char.isDigit, UInt32.le_iff_toNat_le] at h ⊢
    omega
  exact dif_neg hx

/-- Digits are word characters. -/
theorem Text.isWord_of_isDigit {x : Char} (hx : x.isDigit) : isWord x := by
  rw [isWord, isAlphanumeric_of_isAlphanum (by rw [Char.isAlphanum, hx, Bool.or_true])]
  rfl

/-- Digits are no white space. -/
theorem not_isSpace_of_isDigit {x : Char} (hx : x.isDigit) : Text.isSpace x = false :=
  Text.not_isSpace_of_isWord (Text.isWord_of_isDigit hx)

/-- What starts with a digit is no word for a number. -/
theorem magnitude?_plain (d : Digits) (fraction : Option Digits) :
    Number.magnitude? (d.plain ++ fraction.elim [] ('.' :: ·.plain)) =
      some (Number.ofDecimal d.plain (fraction.elim [] Digits.plain) 0) := by
  obtain ⟨x, xs, hd, hx⟩ := d.exists_plain
  have hword (w : List Char) (hw : w.head?.any Char.isDigit = false) :
      (d.plain ++ fraction.elim [] ('.' :: ·.plain)).map Char.toLower ≠ w := by
    rintro rfl
    rw [hd, List.cons_append, List.map_cons, toLower_of_isDigit hx] at hw
    exact Bool.false_ne_true (hw.symm.trans hx)
  rw [Number.magnitude?, if_neg, if_neg]
  · rw [List.takeWhile_append_of_pos d.isDigit_of_mem_plain,
      List.dropWhile_append_of_pos d.isDigit_of_mem_plain]
    cases fraction with
    | none => simp [hd]
    | some f =>
      simp [hd, Char.isDigit, takeWhile_of_all f.isDigit_of_mem_plain,
        dropWhile_of_all f.isDigit_of_mem_plain]
  · exact hword _ rfl
  · intro h
    exact (Bool.or_eq_true_iff.1 h).elim (fun h => hword _ rfl (of_decide_eq_true h))
      fun h => hword _ rfl (of_decide_eq_true h)

namespace Numeral

variable (n : Numeral)

/-- What a decimal starts with. -/
theorem exists_signed : ∃ x xs, n.chars = x :: xs ∧ (x.isDigit ∨ x = '+' ∨ x = '-') := by
  rw [Numeral.chars]
  cases hsign : n.sign with
  | some x => exact ⟨x, n.unsigned, rfl, .inr (n.isSign x hsign)⟩
  | none =>
    obtain ⟨x, xs, hn, hx⟩ := n.exists_unsigned
    exact ⟨x, xs, hn, .inl hx⟩

/-- A decimal starts neither with a parenthesis nor with white space. -/
theorem exists_chars :
    ∃ x xs, n.chars = x :: xs ∧ x ≠ '(' ∧ Text.isSpace x = false := by
  obtain ⟨x, xs, hn, hx⟩ := n.exists_signed
  refine ⟨x, xs, hn, ?_⟩
  rcases hx with hdigit | rfl | rfl
  · refine ⟨?_, not_isSpace_of_isDigit hdigit⟩
    rintro rfl
    cases hdigit
  · decide
  · decide

/-- A decimal ends in digits. -/
theorem exists_last : ∃ xs, ∃ d : Digits, n.chars = xs ++ d.chars := by
  rw [chars, unsigned]
  cases n.fraction with
  | none => exact ⟨n.sign.toList, n.whole, by rw [Option.elim_none, List.append_nil]⟩
  | some d =>
    refine ⟨n.sign.toList ++ n.whole.chars ++ ['.'], d, ?_⟩
    rw [Option.elim_some, List.append_assoc, List.append_assoc]
    rfl

/-- Without its underscores a decimal has its value. -/
theorem ofChars?_eq (n : Numeral) : Number.ofChars? (n.chars.filter (· ≠ '_')) = some n.value := by
  have hchars : n.chars.filter (· ≠ '_') =
      n.sign.toList ++ (n.whole.plain ++ n.fraction.elim [] ('.' :: ·.plain)) := by
    have hsign : n.sign.toList.filter (· ≠ '_') = n.sign.toList := by
      refine List.filter_eq_self.2 fun x hx => ?_
      rcases n.isSign x (Option.mem_toList.1 hx) with rfl | rfl <;> rfl
    rw [chars, unsigned, List.filter_append, List.filter_append, hsign, Digits.plain]
    cases n.fraction <;> rfl
  rw [hchars, value]
  cases hsign : n.sign with
  | some c =>
    rcases n.isSign c hsign with rfl | rfl
    · simp [Number.ofChars?, magnitude?_plain]
    · simp [Number.ofChars?, magnitude?_plain]
  | none =>
    obtain ⟨x, xs, hd, hx⟩ := n.whole.exists_plain
    rw [Option.toList_none, List.nil_append, if_neg nofun, ← magnitude?_plain, hd,
      List.cons_append, Number.ofChars?.eq_def]
    -- A digit is no sign.
    split
    · rename_i h
      cases h
      cases hx
    · rename_i h
      cases h
      cases hx
    · rfl

variable {σ : Type} {c : Cursor} {j : σ} {zs : List Char}

/-- The token for numbers answers the value of a decimal. -/
theorem number_eq (hrest : c.rest = n.chars ++ zs)
    (h : ∀ x ∈ zs.head?, (x.isDigit || x = '_') = false ∧ x ≠ '.') :
    number c j = .ok n.value (c.skip n.chars.length) j := by
  simp only [number, hrest, n.numeral?_append h, n.ofChars?_eq]

end Numeral

end Dialogue
