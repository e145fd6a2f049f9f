import Mathlib

/-!
# Time that has elapsed

A pause is over when at least as much time has elapsed as was left of it. The story finds
out by a subtraction, which rounds: what matters is that a difference is rounded to
nothing above zero if there is nothing above zero to round (`Number.not_lt_sub`).

Numbers are compared by sign, exponent and mantissa, and subtracted with the mantissas
shifted to one exponent. The two agree as every number has one form only, in which the
mantissa is long unless the exponent is the least (`Number.Canonical`).
-/

namespace Dialogue.Number

open Float.Model (UnpackedFloat Format)
open Float.Model.UnpackedFloat

/-! ## Numbers above zero -/

/-- Infinity, and finite numbers above zero. -/
inductive Positive : UnpackedFloat → Prop
  | infinity : Positive (.infinity .positive)
  | finite {m : Nat} {e : Int} {hm : 0 < m} : Positive (.finite .positive m e hm)

/-- The order of numbers is that of their unpacked forms. -/
theorem le_iff {x y : Float} : x ≤ y ↔ x.toModel.unpack.le y.toModel.unpack :=
  decide_eq_true_iff

/-- A number is above zero if its unpacked form is. -/
theorem zero_lt_iff {x : Float} : 0 < x ↔ Positive x.toModel.unpack := by
  have hlt : 0 < x ↔ UnpackedFloat.lt (.zero .positive) x.toModel.unpack := decide_eq_true_iff
  rw [hlt]
  cases x.toModel.unpack with
  | notANumber | zero => exact iff_of_false nofun nofun
  | infinity s =>
    cases s with
    | negative => exact iff_of_false nofun nofun
    | positive => exact iff_of_true rfl .infinity
  | finite s m e hm =>
    cases s with
    | negative => exact iff_of_false nofun nofun
    | positive => exact iff_of_true rfl .finite

/-! ## Bits -/

variable {b : BitVec Format.binary64.numBits} {s : Sign} {m : Nat} {e : Int}

/-- The sign is kept where a number is packed. -/
theorem unpackSign_packComponents {format : Format} {e : BitVec format.exponentBits}
    {m : BitVec format.mantissaBitsWithoutImplicit} :
    unpackSign (packComponents format s e m) = s.toBitVec := by
  ext i hi
  obtain rfl : i = 0 := Nat.lt_one_iff.1 hi
  simp [unpackSign, packComponents, BitVec.getLsbD_append, BitVec.getElem_append]

/-- A number with the sign bit is not above zero. -/
theorem not_positive_unpack (hb : unpackSign b = 1#1) : ¬ Positive (unpack .binary64 b) := by
  intro hpos
  simp only [unpack, hb] at hpos
  split at hpos
  · split at hpos <;> cases hpos
  · split at hpos
    · split at hpos <;> cases hpos
    · cases hpos

/-- A number that is above zero once it is stored was so before. -/
theorem positive_of_unpack_pack {x : UnpackedFloat}
    (h : Positive (unpack .binary64 (pack .binary64 x))) : Positive x := by
  cases x with
  | notANumber =>
    have hnan : unpack .binary64 (pack .binary64 .notANumber) = .notANumber := rfl
    rw [hnan] at h
    cases h
  | zero s => cases s <;> cases h
  | infinity s =>
    cases s with
    | negative => exact absurd h (not_positive_unpack unpackSign_packComponents)
    | positive => exact .infinity
  | finite s m e hm =>
    cases s with
    | negative =>
      refine absurd h (not_positive_unpack ?_)
      rw [pack]
      split
      · exact unpackSign_packComponents
      · split <;> exact unpackSign_packComponents
    | positive => exact .finite

/-! ## Rounding -/

/-- Rounding keeps the sign. -/
theorem positive_round (h : Positive (UnpackedFloat.round .binary64 s m e)) : s = .positive := by
  simp only [UnpackedFloat.round, roundWithAccuracy] at h
  split at h <;> cases h
  rfl

/-- A sum that is above zero once it is rounded was so before. -/
theorem positive_normalize {m : Int} (h : Positive (UnpackedFloat.normalize .binary64 m e s)) :
    0 < m := by
  rw [UnpackedFloat.normalize] at h
  split at h
  · cases positive_round h
  · cases h
  · rename_i hm
    exact Int.compare_eq_gt.1 hm

/-! ## Order -/

/-- A mantissa that is not too long, and long unless the exponent is the least. -/
structure Canonical (m : Nat) (e : Int) : Prop where
  lt : m < 2 ^ 53
  least : -1074 ≤ e
  long : -1074 < e → 2 ^ 52 ≤ m

/-- What is unpacked is canonical. -/
theorem canonical_unpack {hm : 0 < m} (h : unpack .binary64 b = .finite s m e hm) :
    Canonical m e := by
  have hbias : Format.binary64.exponentBias = 1023 := rfl
  simp only [unpack] at h
  split at h
  · split at h <;> cases h
  · split at h
    · rename_i hleast
      split at h
      · cases h
      · cases h
        have hlt := (unpackMantissa b).isLt
        rw [hleast, hbias]
        exact ⟨by omega, by decide, fun h => absurd h (by decide)⟩
    · rename_i hleast
      cases h
      have hpos : 0 < (unpackExponent b).toNat :=
        Nat.pos_of_ne_zero fun h => hleast (BitVec.eq_of_toNat_eq h)
      rw [hbias]
      refine ⟨BitVec.isLt _, by omega, fun _ => ?_⟩
      -- The first bit of the mantissa is not stored: it is set.
      rw [BitVec.toNat_append]
      exact Nat.left_le_or

variable {m₁ m₂ : Nat} {e₁ e₂ : Int}

/-- Exponents come first, then mantissas: so it is with both at one exponent. -/
theorem Canonical.shiftLeft_lt (hc₁ : Canonical m₁ e₁) (hc₂ : Canonical m₂ e₂)
    (h : (compare e₁ e₂).then (compare m₁ m₂) = .lt) :
    m₁ <<< (e₁ - min e₁ e₂).toNat < m₂ <<< (e₂ - min e₁ e₂).toNat := by
  rcases Ordering.then_eq_lt.1 h with he | ⟨he, hm⟩
  · have hlt := Int.compare_eq_lt.1 he
    have hlong := hc₂.long (Int.lt_of_le_of_lt hc₁.least hlt)
    obtain ⟨k, hk⟩ : ∃ k, (e₂ - e₁).toNat = k + 1 := ⟨(e₂ - e₁).toNat - 1, by omega⟩
    rw [Int.min_eq_left (Int.le_of_lt hlt), Int.sub_self, Int.toNat_zero, Nat.shiftLeft_zero,
      Nat.shiftLeft_eq, hk]
    calc m₁ < 2 ^ 52 * 2 ^ 1 := hc₁.lt
      _ ≤ m₂ * 2 ^ (k + 1) :=
        Nat.mul_le_mul hlong (Nat.pow_le_pow_right Nat.two_pos (Nat.succ_le_succ k.zero_le))
  · obtain rfl := Int.compare_eq_eq.1 he
    simpa using Nat.compare_eq_lt.1 hm

/-- The order of exponents and mantissas is that of mantissas at one exponent. -/
theorem Canonical.shiftLeft_le (hc₁ : Canonical m₁ e₁) (hc₂ : Canonical m₂ e₂)
    (h : ((compare e₁ e₂).then (compare m₁ m₂)).isLE) :
    m₁ <<< (e₁ - min e₁ e₂).toNat ≤ m₂ <<< (e₂ - min e₁ e₂).toNat := by
  cases ho : (compare e₁ e₂).then (compare m₁ m₂) with
  | lt => exact Nat.le_of_lt (hc₁.shiftLeft_lt hc₂ ho)
  | eq =>
    obtain ⟨he, hm⟩ := Ordering.then_eq_eq.1 ho
    rw [Int.compare_eq_eq.1 he, Nat.compare_eq_eq.1 hm]
  | gt =>
    rw [ho] at h
    cases h

/-- The order of numbers with signs is that of their mantissas at one exponent. -/
theorem Canonical.apply_le {s₁ s₂ : Sign} {h₁ : 0 < m₁} {h₂ : 0 < m₂} (hc₁ : Canonical m₁ e₁)
    (hc₂ : Canonical m₂ e₂) (h : (UnpackedFloat.finite s₁ m₁ e₁ h₁).le (.finite s₂ m₂ e₂ h₂)) :
    s₁.apply ↑(m₁ <<< (e₁ - min e₁ e₂).toNat) ≤ s₂.apply ↑(m₂ <<< (e₂ - min e₁ e₂).toNat) := by
  cases s₁ with
  | negative =>
    cases s₂ with
    | negative =>
      have hle : ((compare e₁ e₂).then (compare m₁ m₂)).swap.isLE := h
      rw [Ordering.swap_then, Int.compare_swap, Nat.compare_swap] at hle
      have hshift := hc₂.shiftLeft_le hc₁ hle
      rw [Int.min_comm] at hshift
      exact Int.neg_le_neg (Int.ofNat_le.2 hshift)
    | positive =>
      exact Int.le_trans (Int.neg_nonpos_of_nonneg (Int.natCast_nonneg _)) (Int.natCast_nonneg _)
  | positive =>
    cases s₂ with
    | negative => cases h
    | positive => exact Int.ofNat_le.2 (hc₁.shiftLeft_le hc₂ h)

/-! ## Differences -/

/-- Nothing above zero is left of a number that is not greater. -/
theorem not_positive_sub {x y : UnpackedFloat}
    (hx : ∀ {s m e hm}, x = .finite s m e hm → Canonical m e)
    (hy : ∀ {s m e hm}, y = .finite s m e hm → Canonical m e) (h : x.le y) :
    ¬ Positive (sub .binary64 x y) := by
  -- Only of two finite numbers a difference is rounded; for all others the signs decide.
  intro hpos
  cases x with
  | notANumber => cases hpos
  | infinity s =>
    cases y with
    | notANumber => cases hpos
    | infinity s' => cases s <;> cases s' <;> first | (cases hpos; done) | cases h
    | zero | finite =>
      cases s with
      | negative => cases hpos
      | positive => cases h
  | zero s =>
    cases y with
    | notANumber => cases hpos
    | zero s' => cases s <;> cases s' <;> cases hpos
    | infinity s' | finite s' =>
      cases s' with
      | negative => cases h
      | positive => cases hpos
  | finite s₁ m₁ e₁ h₁ =>
    cases y with
    | notANumber => cases hpos
    | infinity s₂ =>
      cases s₂ with
      | negative => cases s₁ <;> cases h
      | positive => cases hpos
    | zero =>
      cases s₁ with
      | negative => cases hpos
      | positive => cases h
    | finite s₂ m₂ e₂ h₂ =>
      have hle := (hx rfl).apply_le (hy rfl) h
      exact Int.not_le.2 (positive_normalize hpos) (Int.sub_nonpos_of_le hle)

/-- Nothing above zero is left of a number when one that is not smaller is subtracted. -/
theorem not_lt_sub {x y : Float} (h : x ≤ y) : ¬ 0 < x - y := by
  rw [zero_lt_iff]
  exact fun hpos => not_positive_sub canonical_unpack canonical_unpack (le_iff.1 h)
    (positive_of_unpack_pack hpos)

end Dialogue.Number
