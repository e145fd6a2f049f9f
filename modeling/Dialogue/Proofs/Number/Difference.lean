import Dialogue.Proofs.Number.Elapsed

/-!
# What is left of a number

Nothing above zero is left of a number just when one is subtracted from it that is not smaller,
or that is not a number (`Number.not_lt_sub_iff`). One half is `Number.not_lt_sub`; the other
one is that rounding does not lose a difference: it is a multiple of the least number above
zero, so rounding shortens its mantissa but does not shift all of it away (`Number.fits_shift`).
-/

namespace Dialogue.Number

open Float.Model (UnpackedFloat Format)
open Float.Model.UnpackedFloat

variable {m m₁ m₂ : Nat} {e e₁ e₂ : Int} {s : Sign}

/-! ## Shifting -/

/-- Shifting divides the mantissa by a power of two. -/
theorem mantissa_shiftRight (x : ExtendedMantissa) (k : Nat) :
    (x >>> k).mantissa = x.mantissa / 2 ^ k := by
  induction k with
  | zero => exact (Nat.div_one _).symm
  | succ k ih =>
    change (x >>> k).mantissa / 2 = _
    rw [ih, Nat.div_div_eq_div_mul, pow_succ]

/-- The mantissa is not changed by its accuracy. -/
theorem mantissa_ofMantissaAndAccuracy (m : Nat) (a : Accuracy) :
    (ExtendedMantissa.ofMantissaAndAccuracy m a).mantissa = m := by
  cases a with
  | exact => rfl
  | inexact o => cases o <;> rfl

/-- Rounding a mantissa does not make it smaller than cutting it off. -/
theorem le_roundedMantissa (x : ExtendedMantissa) : x.mantissa ≤ x.roundedMantissa := by
  obtain ⟨m, r, s⟩ := x
  cases r <;> cases s
  · exact Nat.le_refl m
  · exact Nat.le_refl m
  · exact Nat.le_add_right m _
  · exact Nat.le_succ m

/-- A mantissa that is not too long and not zero, at an exponent that is not too small. -/
structure Fits (m : Nat) (e : Int) : Prop where
  pos : 0 < m
  lt : m < 2 ^ 53
  least : -1074 ≤ e

/-- The form of a number fits in the format. -/
theorem Canonical.fits (h : Canonical m e) (hm : 0 < m) : Fits m e := ⟨hm, h.lt, h.least⟩

/-- Shifting shortens a mantissa that is too long, and does not shift all of it away. -/
theorem fits_shift (hm : 0 < m) (he : -1074 ≤ e) (a : Accuracy) :
    Fits (shiftToTargetExponent .binary64 m e a).1.mantissa
      (shiftToTargetExponent .binary64 m e a).2 := by
  simp only [shiftToTargetExponent, shiftToExponent, mantissa_shiftRight,
    mantissa_ofMantissaAndAccuracy]
  set k := (Format.binary64.targetExponent (Float.Model.totalExponent m e) - e).toNat with hk
  -- So far that 53 bits are left, or up to the least exponent.
  have htarget : Format.binary64.targetExponent (Float.Model.totalExponent m e) =
      max (m.log2 + 1 + e - 53) (-1074) := rfl
  rw [htarget] at hk
  refine ⟨Nat.div_pos ?_ (Nat.two_pow_pos k), ?_, by omega⟩
  · exact (Nat.le_log2 hm.ne').1 (by omega)
  · rw [Nat.div_lt_iff_lt_mul (Nat.two_pow_pos k), ← pow_add]
    exact (Nat.log2_lt hm.ne').1 (by omega)

/-! ## Rounding -/

/-- What is rounded is finite, and fits in the format. -/
theorem roundWithAccuracy_fits (hm : 0 < m) (he : -1074 ≤ e) (s : Sign) (a : Accuracy) :
    ∃ m' e', ∃ hm' : 0 < m', roundWithAccuracy .binary64 s m e a = .finite s m' e' hm' ∧
      Fits m' e' := by
  -- Rounding may make the mantissa too long, so it is shifted once more.
  have hfirst := fits_shift hm he a
  have hsecond := fits_shift (hfirst.pos.trans_le (le_roundedMantissa _)) hfirst.least .exact
  exact ⟨_, _, hsecond.pos, dif_neg hsecond.pos.ne', hsecond⟩

/-- What is rounded exactly is finite, and fits in the format. -/
theorem round_fits (hm : 0 < m) (he : -1074 ≤ e) (s : Sign) :
    ∃ m' e', ∃ hm' : 0 < m', UnpackedFloat.round .binary64 s m e = .finite s m' e' hm' ∧
      Fits m' e' := by
  rw [UnpackedFloat.round]
  have hleast : -1074 ≤ Format.binary64.targetExponent (Float.Model.totalExponent m e) :=
    le_max_right _ _
  generalize Format.binary64.targetExponent (Float.Model.totalExponent m e) = t at hleast
  refine roundWithAccuracy_fits ?_ (by omega) s .exact
  rw [Nat.shiftLeft_eq]
  positivity

/-! ## Bits -/

/-- What stays above zero when it is stored. A number that is too large becomes infinite. -/
inductive Lasts : UnpackedFloat → Prop
  | infinity : Lasts (.infinity .positive)
  | finite {m : Nat} {e : Int} {hm : 0 < m} (h : Fits m e) : Lasts (.finite .positive m e hm)

/-- What is packed with other bits than zero is above zero. -/
theorem unpack_packComponents (e : BitVec 11) (m : BitVec 52) (he : e ≠ -1#11)
    (hpos : e ≠ 0#11 ∨ m ≠ 0#52) :
    Positive (unpack .binary64 (packComponents .binary64 .positive e m)) := by
  have hsign : Sign.ofBitVec Sign.positive.toBitVec = .positive := rfl
  simp only [unpack, unpackExponent_packComponents, unpackMantissa_packComponents,
    unpackSign_packComponents, hsign, if_neg he]
  split
  · rename_i hzero
    rw [dif_neg (hpos.resolve_left fun h => h hzero)]
    exact .finite
  · exact .finite

/-- What lasts is above zero behind rounding. -/
theorem Lasts.positive {x : UnpackedFloat} (h : Lasts x) :
    Positive (unpack .binary64 (pack .binary64 x)) := by
  cases h with
  | infinity => exact .infinity
  | @finite m e hm h =>
    obtain ⟨-, hlt, hleast⟩ := h
    have hbias : Format.binary64.exponentBias = 1023 := rfl
    rw [pack]
    -- What is packed is too large, normal or subnormal.
    split
    · exact .infinity
    · rename_i hsmall
      simp only [hbias] at hsmall
      split
      · refine unpack_packComponents _ _ (fun h => ?_) (.inl fun h => ?_)
        · have hones : (e + 1023 + 52).toNat % 2 ^ 11 = 2047 := congrArg BitVec.toNat h
          omega
        · have hzero : (e + 1023 + 52).toNat % 2 ^ 11 = 0 := congrArg BitVec.toNat h
          omega
      · rename_i hshort
        have hshort : m < 2 ^ 52 := by
          have hlog := (Nat.log2_lt hm.ne').2 hlt
          have hne : m.log2 + 1 ≠ 53 := hshort
          exact (Nat.log2_lt hm.ne').1 (by omega)
        refine unpack_packComponents _ _ (by decide) (.inr fun h => ?_)
        have hzero : m % 2 ^ 52 = 0 := congrArg BitVec.toNat h
        rw [Nat.mod_eq_of_lt hshort] at hzero
        exact hm.ne' hzero

/-- A sum that is above zero is rounded to a number above zero. -/
theorem lasts_normalize {m : Int} (hm : 0 < m) (he : -1074 ≤ e) (s : Sign) :
    Lasts (UnpackedFloat.normalize .binary64 m e s) := by
  rw [UnpackedFloat.normalize, Int.compare_eq_gt.2 hm]
  obtain ⟨m', e', hm', hround, hfits⟩ := round_fits (Int.lt_toNat.2 hm) he .positive
  rw [hround]
  exact .finite hfits

/-! ## Order -/

/-- The order of numbers is that of their mantissas at one exponent. -/
theorem Canonical.apply_lt {s₁ s₂ : Sign} {h₁ : 0 < m₁} {h₂ : 0 < m₂} (hc₁ : Canonical m₁ e₁)
    (hc₂ : Canonical m₂ e₂) (h : (UnpackedFloat.finite s₁ m₁ e₁ h₁).lt (.finite s₂ m₂ e₂ h₂)) :
    s₁.apply ↑(m₁ <<< (e₁ - min e₁ e₂).toNat) < s₂.apply ↑(m₂ <<< (e₂ - min e₁ e₂).toNat) := by
  have hpos {m k : Nat} (hm : 0 < m) : 0 < m <<< k := by
    rw [Nat.shiftLeft_eq]
    positivity
  cases s₁ with
  | negative =>
    cases s₂ with
    | negative =>
      have hlt := Option.some.inj (eq_of_beq h)
      rw [Ordering.swap_then, Int.compare_swap, Nat.compare_swap] at hlt
      have hshift := hc₂.shiftLeft_lt hc₁ hlt
      rw [Int.min_comm] at hshift
      exact Int.neg_lt_neg (Int.ofNat_lt.2 hshift)
    | positive =>
      exact Int.lt_trans (Int.neg_neg_of_pos (Int.natCast_pos.2 (hpos h₁)))
        (Int.natCast_pos.2 (hpos h₂))
  | positive =>
    cases s₂ with
    | negative => cases h
    | positive => exact Int.ofNat_lt.2 (hc₁.shiftLeft_lt hc₂ (Option.some.inj (eq_of_beq h)))

/-! ## Differences -/

/-- The difference to a smaller number lasts. -/
theorem lasts_sub {x y : UnpackedFloat}
    (hx : ∀ {s m e hm}, x = .finite s m e hm → Canonical m e)
    (hy : ∀ {s m e hm}, y = .finite s m e hm → Canonical m e) (h : y.lt x) :
    Lasts (sub .binary64 x y) := by
  -- Only the difference of two finite numbers is rounded; all others are read off the signs.
  cases x with
  | notANumber => cases y <;> cases h
  | infinity s =>
    cases s with
    | negative => cases y with
      | infinity s' => cases s' <;> cases h
      | notANumber | zero | finite => cases h
    | positive =>
      cases y with
      | notANumber => cases h
      | infinity s' =>
        cases s' with
        | positive => cases h
        | negative => exact .infinity
      | zero | finite => exact .infinity
  | zero s =>
    cases y with
    | notANumber | zero => cases h
    | infinity s' =>
      cases s' with
      | positive => cases h
      | negative => exact .infinity
    | finite s' m e hm =>
      cases s' with
      | positive => cases h
      | negative => exact .finite ((hy rfl).fits hm)
  | finite s₁ m₁ e₁ h₁ =>
    cases y with
    | notANumber => cases h
    | infinity s₂ =>
      cases s₂ with
      | positive => cases s₁ <;> cases h
      | negative => exact .infinity
    | zero =>
      cases s₁ with
      | negative => cases h
      | positive => exact .finite ((hx rfl).fits h₁)
    | finite s₂ m₂ e₂ h₂ =>
      have hlt := (hy rfl).apply_lt (hx rfl) h
      rw [Int.min_comm] at hlt
      exact lasts_normalize (Int.sub_pos_of_lt hlt) (le_min (hx rfl).least (hy rfl).least) .positive

/-- Comparing the other way round turns the result around. -/
theorem compare_swap (x y : UnpackedFloat) :
    UnpackedFloat.compare y x = (UnpackedFloat.compare x y).map .swap := by
  cases x with
  | notANumber => cases y <;> rfl
  | infinity s =>
    cases y with
    | notANumber => cases s <;> rfl
    | infinity s' | finite s' => cases s <;> cases s' <;> rfl
    | zero => cases s <;> rfl
  | zero =>
    cases y with
    | notANumber => rfl
    | infinity s' | finite s' => cases s' <;> rfl
    | zero => rfl
  | finite s m e =>
    cases y with
    | notANumber => rfl
    | infinity s' => cases s <;> cases s' <;> rfl
    | zero => cases s <;> rfl
    | finite s' m' e' =>
      -- Finite numbers of one sign are told by their exponents first, and then by their mantissas.
      have hswap : (compare e' e).then (compare m' m) =
          ((compare e e').then (compare m m')).swap := by
        rw [Ordering.swap_then, Int.compare_swap, Nat.compare_swap]
      cases s with
      | negative =>
        cases s' with
        | negative => exact congrArg some (congrArg Ordering.swap hswap)
        | positive => rfl
      | positive =>
        cases s' with
        | negative => rfl
        | positive => exact congrArg some hswap

/-- Numbers that cannot be compared are not both numbers. -/
theorem isNaN_of_compare {x y : UnpackedFloat} (h : x.compare y = none) : x.isNaN ∨ y.isNaN := by
  cases x with
  | notANumber => exact .inl rfl
  | infinity s =>
    cases y with
    | notANumber => exact .inr rfl
    | infinity | zero | finite => cases s <;> cases h
  | zero s =>
    cases y with
    | notANumber => exact .inr rfl
    | infinity s' | finite s' => cases s' <;> cases h
    | zero => cases h
  | finite s =>
    cases y with
    | notANumber => exact .inr rfl
    | infinity s' | finite s' => cases s <;> cases s' <;> cases h
    | zero => cases s <;> cases h

/-- One number is less than another, or it is not, unless one of them is no number. -/
theorem lt_or_le (x y : Float) : y < x ∨ x ≤ y ∨ x.isNaN ∨ y.isNaN := by
  have hlt : y < x ↔ (UnpackedFloat.compare y.toModel.unpack x.toModel.unpack == some .lt) :=
    decide_eq_true_iff
  rw [hlt, le_iff, UnpackedFloat.le, compare_swap x.toModel.unpack]
  cases h : UnpackedFloat.compare x.toModel.unpack y.toModel.unpack with
  | none => exact .inr (.inr (isNaN_of_compare h))
  | some o => cases o with
    | lt | eq => exact .inr (.inl rfl)
    | gt => exact .inl rfl

/-- The difference to a smaller number is above zero. -/
theorem lt_sub {x y : Float} (h : y < x) : 0 < x - y :=
  zero_lt_iff.2 (lasts_sub canonical_unpack canonical_unpack (decide_eq_true_iff.1 h)).positive

/-- There is one form of what is not a number. -/
theorem eq_notANumber {x : UnpackedFloat} (h : x.isNaN) : x = .notANumber := by
  cases x with
  | notANumber => rfl
  | infinity | zero | finite => cases h

/-- What is not a number is not above zero. -/
theorem not_pos_of_isNaN {x : Float} (h : x.isNaN) : ¬ 0 < x := by
  have hx : x.toModel.unpack = .notANumber := eq_notANumber h
  rw [zero_lt_iff, hx]
  exact nofun

/-- What is not a number makes the difference none. -/
theorem isNaN_sub {x y : Float} (h : x.isNaN ∨ y.isNaN) : (x - y).isNaN := by
  have hsub : sub .binary64 x.toModel.unpack y.toModel.unpack = .notANumber := by
    rcases h with hx | hy
    · have hx : x.toModel.unpack = .notANumber := eq_notANumber hx
      rw [hx]
      rfl
    · have hy : y.toModel.unpack = .notANumber := eq_notANumber hy
      rw [hy]
      cases x.toModel.unpack <;> rfl
  change (unpack .binary64 (pack .binary64 (sub .binary64 x.toModel.unpack _))).isNaN
  rw [hsub]
  rfl

/-- Nothing above zero is left of a number just when one is subtracted that is not smaller, or
    one of them is not a number. -/
theorem not_lt_sub_iff {x y : Float} : ¬ 0 < x - y ↔ x ≤ y ∨ x.isNaN ∨ y.isNaN := by
  constructor
  · exact fun h => (lt_or_le x y).resolve_left fun hlt => h (lt_sub hlt)
  · rintro (hle | hnan)
    · exact not_lt_sub hle
    · exact not_pos_of_isNaN (isNaN_sub hnan)

end Dialogue.Number
