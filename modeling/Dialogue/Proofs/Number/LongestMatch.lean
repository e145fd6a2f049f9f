import Dialogue.Proofs.Number.Numeral

/-!
# The longest decimal

The token for numbers takes the longest decimal that the source goes on with, and misses where it
goes on with none (`Parser.number_reply`).

It never has to choose between a longer part and a longer whole. A sign is taken if there is one,
digits are taken up to the last, and a point is taken together with the digits behind it or not at
all (`numeral?_fraction`). What is taken is a decimal (`exists_numeral`), and no decimal that the
source goes on with has a longer part (`Numeral.exists_numeral?`).
-/

namespace Dialogue

open Dialogue.Parser

/-- The longest decimal that a text starts with. -/
structure Numeral.Longest (n : Numeral) (cs : List Char) : Prop where
  /-- The text starts with it. -/
  starts : n.chars <+: cs
  /-- It starts with no longer one. -/
  longest : ∀ m : Numeral, m.chars <+: cs → m.chars.length ≤ n.chars.length

/-! ## Digits -/

/-- A run of digits goes on with what follows the digits. -/
theorem Digits.digitRun_chars_append (d : Digits) (zs : List Char) :
    digitRun (d.chars ++ zs) = d.chars ++ zs.takeWhile fun x => x.isDigit || x = '_' := by
  obtain ⟨x, xs, hd, hx⟩ := d.exists_first
  rw [digitRun, if_pos (by simp [hd, hx]), List.takeWhile_append_of_pos d.only]

/-- A run of digits takes all of them. -/
theorem Digits.length_le_digitRun (d : Digits) (zs : List Char) :
    d.chars.length ≤ (digitRun (d.chars ++ zs)).length := by
  rw [d.digitRun_chars_append, List.length_append]
  exact Nat.le_add_right _ _

/-- A run that is not empty starts with a digit and goes on with digits and underscores. -/
theorem exists_digits {cs : List Char} (h : digitRun cs ≠ []) :
    ∃ d : Digits, d.chars = digitRun cs := by
  rw [digitRun] at h ⊢
  split at h
  · rename_i hfirst
    rw [if_pos hfirst]
    refine ⟨⟨_, ?_, fun x hx => List.all_eq_true.1 List.all_takeWhile x hx⟩, rfl⟩
    cases cs with
    | nil => cases hfirst
    | cons x xs =>
      have hx : x.isDigit = true := hfirst
      rw [List.takeWhile_cons_of_pos (by rw [hx, Bool.true_or])]
      exact hx
  · exact absurd rfl h

/-! ## Decimals -/

/-- The point and the digits that go on a decimal, if there are digits behind the point. -/
def fractionRun : List Char → List Char
  | '.' :: rest => if (digitRun rest).isEmpty then [] else '.' :: digitRun rest
  | _ => []

/-- A decimal is a sign, digits and a fraction, each as far as it goes. -/
theorem numeral?_fraction (cs : List Char) :
    numeral? cs =
      if (digitRun (signed cs).2).isEmpty then none
      else some ((signed cs).1 ++ digitRun (signed cs).2 ++
        fractionRun ((signed cs).2.drop (digitRun (signed cs).2).length)) := by
  rw [numeral?_signed]
  dsimp only
  split
  · rfl
  · split
    · rename_i rest hrest
      rw [hrest, fractionRun]
      split
      · rw [List.append_nil]
      · rfl
    · rename_i hrest
      rw [fractionRun, List.append_nil]
      exact hrest

/-- A fraction is a point with digits, or nothing. -/
theorem exists_fraction (cs : List Char) :
    ∃ f : Option Digits, fractionRun cs = f.elim [] ('.' :: ·.chars) := by
  rw [fractionRun.eq_def]
  split
  · rename_i rest
    split
    · exact ⟨none, rfl⟩
    · rename_i hdigits
      rw [List.isEmpty_iff] at hdigits
      obtain ⟨d, hd⟩ := exists_digits hdigits
      exact ⟨some d, by rw [← hd]; rfl⟩
  · exact ⟨none, rfl⟩

/-- A sign is one of two, or nothing. -/
theorem exists_sign (cs : List Char) :
    ∃ s : Option Char, (∀ x ∈ s, x = '+' ∨ x = '-') ∧ (signed cs).1 = s.toList := by
  cases cs with
  | nil => exact ⟨none, Numeral.isSign_none, rfl⟩
  | cons c rest =>
    rw [signed]
    split
    · rename_i hc
      refine ⟨some c, fun x hx => ?_, rfl⟩
      obtain rfl := Option.some.inj hx
      simpa using hc
    · exact ⟨none, Numeral.isSign_none, rfl⟩

/-- What is read as a decimal is one. -/
theorem exists_numeral {cs run : List Char} (h : numeral? cs = some run) :
    ∃ n : Numeral, n.chars = run := by
  rw [numeral?_fraction] at h
  split at h
  · cases h
  · rename_i hwhole
    rw [List.isEmpty_iff] at hwhole
    obtain ⟨d, hd⟩ := exists_digits hwhole
    obtain ⟨s, hs, hsign⟩ := exists_sign cs
    obtain ⟨f, hf⟩ := exists_fraction ((signed cs).2.drop (digitRun (signed cs).2).length)
    rw [hsign, hf, ← hd, List.append_assoc, Option.some.injEq] at h
    exact ⟨⟨s, d, f, hs⟩, h⟩

/-- If a text starts with a decimal, then one is read that is at least as long. -/
theorem Numeral.exists_numeral? (n : Numeral) (zs : List Char) :
    ∃ run, numeral? (n.chars ++ zs) = some run ∧ n.chars.length ≤ run.length := by
  obtain ⟨x, xs, hwhole, -⟩ := n.whole.exists_first
  rw [numeral?_fraction, n.signed_append]
  dsimp only
  rw [unsigned, List.append_assoc, if_neg (by rw [n.whole.digitRun_chars_append, hwhole]; simp)]
  refine ⟨_, rfl, ?_⟩
  rw [chars, unsigned, List.append_assoc, List.length_append, List.length_append,
    List.length_append, List.length_append]
  cases n.fraction with
  | none =>
    have h := n.whole.length_le_digitRun zs
    rw [Option.elim_none, List.nil_append, List.length_nil]
    omega
  | some f =>
    -- The point ends the digits before it, so that the fraction starts there.
    have hdigits : digitRun (n.whole.chars ++ '.' :: (f.chars ++ zs)) = n.whole.chars :=
      Digits.digitRun_append fun x hx => by cases hx; rfl
    obtain ⟨y, ys, hf, -⟩ := f.exists_first
    have h := f.length_le_digitRun zs
    rw [Option.elim_some, List.cons_append, hdigits, List.drop_left, fractionRun,
      if_neg (by rw [f.digitRun_chars_append, hf]; simp), List.length_cons, List.length_cons]
    omega

/-- What is read as a decimal is the longest one. -/
theorem exists_longest {cs run : List Char} (h : numeral? cs = some run) :
    ∃ n : Numeral, n.chars = run ∧ n.Longest cs := by
  obtain ⟨n, rfl⟩ := exists_numeral h
  obtain ⟨ys, hys, -⟩ := numeral?_eq h
  refine ⟨n, rfl, ⟨ys, hys.symm⟩, ?_⟩
  -- What is read where another decimal starts is what is read here.
  rintro m ⟨zs, rfl⟩
  obtain ⟨run, hrun, hle⟩ := m.exists_numeral? zs
  rw [h, Option.some.injEq] at hrun
  rwa [hrun]

/-- No decimal is recognized if and only if none is ahead. -/
theorem numeral?_eq_none_iff {cs : List Char} :
    numeral? cs = none ↔ ∀ n : Numeral, ¬n.chars <+: cs := by
  constructor
  · rintro h n ⟨zs, rfl⟩
    obtain ⟨run, hrun, -⟩ := n.exists_numeral? zs
    cases h.symm.trans hrun
  · intro h
    refine Option.eq_none_iff_forall_ne_some.2 fun run hrun => ?_
    obtain ⟨n, -, hn⟩ := exists_longest hrun
    exact h n hn.starts

/-! ## The token -/

namespace Parser

variable {σ : Type}

/-- The characters of a number take one byte each. -/
theorem utf8Size_of_isNumeric {x : Char} (h : isNumeric x) : x.utf8Size = 1 := by
  rw [isNumeric, Bool.or_eq_true, List.contains_iff_mem] at h
  rcases h with hdigit | hmark
  · rw [Char.utf8Size_eq_one_iff]
    simp [Char.isDigit, UInt32.le_iff_toNat_le] at hdigit ⊢
    omega
  · simp only [List.mem_cons, List.not_mem_nil, or_false] at hmark
    rcases hmark with rfl | rfl | rfl | rfl <;> rfl

/-- The characters of a decimal have one byte each. -/
theorem byteSize_of_isNumeric {cs : List Char} (h : ∀ x ∈ cs, isNumeric x) :
    byteSize cs = cs.length := by
  induction cs with
  | nil => rfl
  | cons x cs ih =>
    obtain ⟨hx, hcs⟩ := List.forall_mem_cons.1 h
    rw [byteSize, utf8Size_of_isNumeric hx, ih hcs, List.length_cons, Nat.add_comm]

/-- The token takes the longest decimal, or there is none and it misses. -/
theorem number_cases (c : Cursor) (j : σ) :
    (∃ n : Numeral, n.Longest c.rest ∧ number c j = .ok n.value (c.skip n.chars.length) j ∧
      (c.skip n.chars.length).index = c.index + n.chars.length) ∨
    (∀ n : Numeral, ¬n.chars <+: c.rest) ∧ number c j = .miss c.index ["number"] j := by
  cases hnumeral : numeral? c.rest with
  | none => exact .inr ⟨numeral?_eq_none_iff.1 hnumeral, by simp only [number, hnumeral]⟩
  | some run =>
    obtain ⟨n, rfl, hn⟩ := exists_longest hnumeral
    obtain ⟨ys, hys, hnumeric⟩ := numeral?_eq hnumeral
    refine .inl ⟨n, hn, by simp only [number, hnumeral, n.ofChars?_eq], ?_⟩
    rw [Cursor.index_skip, hys, List.take_left, byteSize_of_isNumeric hnumeric]

/-- A number is read exactly where the source goes on with a decimal. What is read is then the
    longest one, and the value is that of the decimal without its underscores, which can always be
    read as a number. Where there is no decimal, the token misses at its own place. -/
theorem number_reply (c : Cursor) (j : σ) :
    ((∃ x d k, number c j = .ok x d k) ↔ ∃ n : Numeral, n.chars <+: c.rest) ∧
    (∀ x d k, number c j = .ok x d k →
      ∃ n : Numeral, n.Longest c.rest ∧ x = n.value ∧
        Number.ofChars? (n.chars.filter (· ≠ '_')) = some x ∧
        c.rest = n.chars ++ d.rest ∧ d.index = c.index + n.chars.length ∧
        d = c.skip n.chars.length ∧ k = j) ∧
    ((∀ n : Numeral, ¬n.chars <+: c.rest) → number c j = .miss c.index ["number"] j) := by
  -- The longest numeral ahead is read if there is one, and otherwise nothing.
  rcases number_cases c j with ⟨n, hn, hnumber, hindex⟩ | ⟨hnone, hnumber⟩
  · refine ⟨⟨fun _ => ⟨n, hn.starts⟩, fun _ => ⟨_, _, _, hnumber⟩⟩, fun x d k h => ?_,
      fun hnone => absurd hn.starts (hnone n)⟩
    cases hnumber.symm.trans h
    obtain ⟨ys, hys⟩ := hn.starts
    exact ⟨n, hn, rfl, n.ofChars?_eq, by rw [Cursor.rest_skip, ← hys, List.drop_left], hindex,
      rfl, rfl⟩
  · refine ⟨⟨fun ⟨x, d, k, h⟩ => ?_, fun ⟨n, hn⟩ => absurd hn (hnone n)⟩, fun x d k h => ?_,
      fun _ => hnumber⟩
    · cases hnumber.symm.trans h
    · cases hnumber.symm.trans h

/-- A decimal with another point behind it. -/
def pointed : Cursor := .ofChars "-1_0.5_.7".toList 4

/-- A sign with no digit behind it. -/
def bareSign : Cursor := .ofChars "-x".toList 4

/-- The underscore at the end of the fraction is read as well, the second point is not. -/
theorem number_reply_pointed :
    (∃ d, number pointed () = .ok (-10.5) d () ∧ d.rest = ".7".toList ∧
      ∃ n : Numeral, n.Longest pointed.rest ∧ n.chars.length = 7) ∧
    (∀ n : Numeral, ¬n.chars <+: bareSign.rest) ∧
      number bareSign () = .miss 0 ["number"] () := by
  have hok : number pointed () = .ok (-10.5) (pointed.skip 7) () := rfl
  have hmiss : number bareSign () = .miss 0 ["number"] () := rfl
  obtain ⟨n, hn, -, -, -, hindex, -, -⟩ := (number_reply pointed ()).2.1 _ _ _ hok
  have hlength : 7 = 0 + n.chars.length := hindex
  have hnone : ∀ n : Numeral, ¬n.chars <+: bareSign.rest := fun n hn => by
    obtain ⟨x, d, k, h⟩ := (number_reply bareSign ()).1.2 ⟨n, hn⟩
    cases hmiss.symm.trans h
  exact ⟨⟨_, hok, rfl, n, hn, by omega⟩, hnone, (number_reply bareSign ()).2.2 hnone⟩

end Parser

end Dialogue
