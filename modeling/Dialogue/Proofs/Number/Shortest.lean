import Dialogue.Number.Shortest
import Dialogue.Proofs.Number.Elapsed

/-!
# Decimals that stand for one double

The shortest decimal of a double lies in the interval of the numbers that round to it
(`Number.shortest_mem`), and these intervals lie apart, in the order of the doubles
(`Number.lt_of_mem_numbers`). So the shortest decimal of a double is no other double's.

That a decimal is found at all is because the grids become fine enough: on the last one that is
tried a step is no longer than a quarter of the unit of the last place (`Number.step_le_quarter`),
so the next multiple above the double still rounds to it (`Number.Rounding.isSome_onGrid?`).
-/

namespace Dialogue.Number

/-- The number that a decimal stands for. -/
def Decimal.value (d : Decimal) : ℚ := d.digits * 10 ^ d.exponent

variable {m m' : Nat} {e e' : Int} {q q' : ℚ}

namespace Rounding

variable {r : Rounding} {g : Int}

/-- The lower end of an interval. -/
def lower (r : Rounding) : ℚ := r.low * 2 ^ r.exponent

/-- The upper end of an interval. -/
def upper (r : Rounding) : ℚ := r.high * 2 ^ r.exponent

/-- The numbers that round to the double. -/
def numbers (r : Rounding) : Set ℚ :=
  if r.closed then Set.Icc r.lower r.upper else Set.Ioo r.lower r.upper

/-- What rounds to a double lies between its bounds. -/
theorem mem_Icc_of_mem_numbers (h : q ∈ r.numbers) : q ∈ Set.Icc r.lower r.upper := by
  rw [numbers] at h
  split at h
  · exact h
  · exact Set.Ioo_subset_Icc_self h

/-- What rounds to an odd double lies strictly between them. -/
theorem mem_Ioo_of_mem_numbers (h : q ∈ r.numbers) (hopen : r.closed = false) :
    q ∈ Set.Ioo r.lower r.upper := by
  rwa [numbers, hopen, if_neg Bool.false_ne_true] at h

/-! ## Decimals on a grid -/

/-- A power with a whole exponent, from powers with exponents that are not negative. -/
theorem pow_toNat {b : ℚ} (hb : b ≠ 0) (n : ℤ) : b ^ n.toNat = b ^ n * b ^ (-n).toNat := by
  rw [← zpow_natCast, ← zpow_natCast, ← zpow_add₀ hb]
  congr 1
  omega

/-- Quarters and steps are the numbers that they stand for, in one measure. -/
theorem exists_measure (r : Rounding) (g : Int) : ∃ k : ℚ, 0 < k ∧
    (r.quarter g : ℚ) = 2 ^ r.exponent * k ∧ (r.step g : ℚ) = 10 ^ g * k := by
  refine ⟨2 ^ (-r.exponent).toNat * 10 ^ (-g).toNat, by positivity, ?_, ?_⟩
  · rw [quarter, Nat.cast_mul, Nat.pow_eq, Nat.pow_eq, Nat.cast_pow, Nat.cast_pow, Nat.cast_ofNat,
      Nat.cast_ofNat, pow_toNat two_ne_zero, mul_assoc]
  · rw [step, Nat.cast_mul, Nat.pow_eq, Nat.pow_eq, Nat.cast_pow, Nat.cast_pow, Nat.cast_ofNat,
      Nat.cast_ofNat, pow_toNat (by norm_num : (10 : ℚ) ≠ 0), mul_left_comm]

/-- Quarters and steps compare like the numbers that they stand for. -/
theorem quarter_le_step_iff (r : Rounding) (g : Int) (a c : Nat) :
    a * r.quarter g ≤ c * r.step g ↔ (a : ℚ) * 2 ^ r.exponent ≤ c * 10 ^ g := by
  obtain ⟨k, hk, hquarter, hstep⟩ := r.exists_measure g
  rw [← Nat.cast_le (α := ℚ), Nat.cast_mul, Nat.cast_mul, hquarter, hstep, ← mul_assoc,
    ← mul_assoc, mul_le_mul_iff_left₀ hk]

/-- Steps and quarters compare like the numbers that they stand for. -/
theorem step_le_quarter_iff (r : Rounding) (g : Int) (a c : Nat) :
    c * r.step g ≤ a * r.quarter g ↔ (c : ℚ) * 10 ^ g ≤ a * 2 ^ r.exponent := by
  obtain ⟨k, hk, hquarter, hstep⟩ := r.exists_measure g
  rw [← Nat.cast_le (α := ℚ), Nat.cast_mul, Nat.cast_mul, hquarter, hstep, ← mul_assoc,
    ← mul_assoc, mul_le_mul_iff_left₀ hk]

/-- So many steps lie inside if and only if they round to the double. -/
theorem inside_iff {c : Nat} : r.inside g c ↔ (⟨c, g⟩ : Decimal).value ∈ r.numbers := by
  rw [inside, numbers, Decimal.value, lower, upper]
  split
  · rw [Bool.and_eq_true, decide_eq_true_iff, decide_eq_true_iff, quarter_le_step_iff,
      step_le_quarter_iff, Set.mem_Icc]
  · rw [Bool.and_eq_true, decide_eq_true_iff, decide_eq_true_iff, ← not_le, ← not_le,
      quarter_le_step_iff, step_le_quarter_iff, not_le, not_le, Set.mem_Ioo]

/-- What is found on a grid rounds to the double. -/
theorem onGrid?_mem {d : Decimal} (h : r.onGrid? g = some d) : d.value ∈ r.numbers := by
  obtain ⟨c, hc, rfl⟩ := Option.map_eq_some_iff.1 h
  exact inside_iff.1 (List.find?_some hc)

/-- On a grid with steps that are no longer than a quarter a decimal is found. -/
theorem isSome_onGrid? (hlow : r.low ≤ r.mid) (hhigh : r.mid + 2 ≤ r.high)
    (hstep : r.step g ≤ r.quarter g) : (r.onGrid? g).isSome := by
  have hpos : 0 < r.step g := Nat.mul_pos (Nat.pow_pos Nat.two_pos) (Nat.pow_pos (by decide))
  -- The next multiple above the double is less than two quarters ahead.
  have hinside : r.inside g (r.mid * r.quarter g / r.step g + 1) := by
    have habove := Nat.lt_div_mul_add (a := r.mid * r.quarter g) hpos
    have hbelow := Nat.div_mul_le_self (r.mid * r.quarter g) (r.step g)
    have hlow := Nat.mul_le_mul_right (r.quarter g) hlow
    have hhigh := Nat.mul_le_mul_right (r.quarter g) hhigh
    rw [Nat.add_mul] at hhigh
    rw [inside, Nat.add_mul, Nat.one_mul]
    split <;> simp only [Bool.and_eq_true, decide_eq_true_iff] <;> omega
  rw [onGrid?, Option.isSome_map, List.find?_isSome]
  refine ⟨_, ?_, hinside⟩
  split
  · exact List.mem_cons_of_mem _ (List.mem_singleton_self _)
  · exact List.mem_cons_self

end Rounding

/-! ## Intervals lie apart -/

/-- The interval of a double ends before that of a greater one starts. If it ends there, one of the
    two mantissas is odd. -/
theorem high_le_low (hc : Canonical m e) (hc' : Canonical m' e') (k : Nat) (hk : e' = e + k)
    (hlt : k = 0 → m < m') :
    (Rounding.of m e).high ≤ (Rounding.of m' e').low * 2 ^ k ∧
      (m % 2 = 0 → m' % 2 = 0 → (Rounding.of m e).high < (Rounding.of m' e').low * 2 ^ k) := by
  have hm := hc.lt
  have hleading : leadingBit = 2 ^ 52 := rfl
  simp only [Rounding.of, Bool.and_eq_true, decide_eq_true_iff]
  cases k with
  | zero =>
    have hlt := hlt rfl
    rw [pow_zero, Nat.mul_one]
    split <;> omega
  | succ k =>
    -- The greater mantissa is long, and the unit of its last place is twice as long at least.
    have hleast := hc.least
    have hlong := hc'.long (by omega)
    have hlow : 2 ^ 54 - 1 ≤
        if m' = leadingBit ∧ e' ≠ -1074 then 4 * m' - 1 else 4 * m' - 2 := by
      split <;> omega
    have htwo : (2 ^ 54 - 1) * 2 ≤
        (if m' = leadingBit ∧ e' ≠ -1074 then 4 * m' - 1 else 4 * m' - 2) * 2 ^ (k + 1) := by
      refine Nat.mul_le_mul hlow ?_
      rw [pow_succ]
      exact Nat.le_mul_of_pos_left 2 (Nat.two_pow_pos k)
    omega

/-- The interval of a double ends before that of a greater one starts, as numbers. -/
theorem upper_le_lower (hc : Canonical m e) (hc' : Canonical m' e')
    (h : e < e' ∨ e = e' ∧ m < m') :
    (Rounding.of m e).upper ≤ (Rounding.of m' e').lower ∧ (m % 2 = 0 → m' % 2 = 0 →
      (Rounding.of m e).upper < (Rounding.of m' e').lower) := by
  obtain ⟨k, hk⟩ : ∃ k : Nat, e' = e + k := ⟨(e' - e).toNat, by omega⟩
  obtain ⟨hle, hlt⟩ := high_le_low hc hc' k hk (by omega)
  have hpos : (0 : ℚ) < 2 ^ (e - 2) := by positivity
  have hupper : (Rounding.of m e).upper = (Rounding.of m e).high * 2 ^ (e - 2) := rfl
  have hlower : (Rounding.of m' e').lower =
      ((Rounding.of m' e').low * 2 ^ k : Nat) * 2 ^ (e - 2) := by
    rw [Rounding.lower, Nat.cast_mul, Nat.cast_pow, Nat.cast_ofNat, mul_assoc, ← zpow_natCast,
      ← zpow_add₀ two_ne_zero]
    congr 2
    change e' - 2 = _
    omega
  rw [hupper, hlower]
  exact ⟨mul_le_mul_of_nonneg_right (Nat.cast_le.2 hle) hpos.le, fun heven heven' =>
    mul_lt_mul_of_pos_right (Nat.cast_lt.2 (hlt heven heven')) hpos⟩

/-- What rounds to a double is less than what rounds to a greater one. -/
theorem lt_of_mem_numbers (hc : Canonical m e) (hc' : Canonical m' e')
    (h : e < e' ∨ e = e' ∧ m < m') (hq : q ∈ (Rounding.of m e).numbers)
    (hq' : q' ∈ (Rounding.of m' e').numbers) : q < q' := by
  obtain ⟨hle, hlt⟩ := upper_le_lower hc hc' h
  have hends := Rounding.mem_Icc_of_mem_numbers hq
  have hends' := Rounding.mem_Icc_of_mem_numbers hq'
  -- Where the intervals meet, one of them is open.
  by_cases heven : m % 2 = 0
  · by_cases heven' : m' % 2 = 0
    · exact (hends.2.trans_lt (hlt heven heven')).trans_le hends'.1
    · have hopen := Rounding.mem_Ioo_of_mem_numbers hq' (decide_eq_false heven')
      exact (hends.2.trans hle).trans_lt hopen.1
  · have hopen := Rounding.mem_Ioo_of_mem_numbers hq (decide_eq_false heven)
    exact (hopen.2.trans_le hle).trans_le hends'.1

/-- No number rounds to two doubles. -/
theorem eq_of_mem_numbers (hc : Canonical m e) (hc' : Canonical m' e')
    (h : q ∈ (Rounding.of m e).numbers) (h' : q ∈ (Rounding.of m' e').numbers) :
    m = m' ∧ e = e' := by
  by_contra hne
  have horder : (e < e' ∨ e = e' ∧ m < m') ∨ e' < e ∨ e' = e ∧ m' < m := by omega
  obtain hlt | hlt := horder
  · exact lt_irrefl q (lt_of_mem_numbers hc hc' hlt h h')
  · exact lt_irrefl q (lt_of_mem_numbers hc' hc hlt h' h)

/-! ## Grids become fine enough -/

/-- Three digits are less than ten bits. -/
theorem ten_pow_le_two_pow {g n : Nat} (h : 10 * g ≤ 3 * n) : 10 ^ g ≤ 2 ^ n := by
  refine (Nat.pow_le_pow_iff_left (n := 3) (by decide)).1 ?_
  calc (10 ^ g) ^ 3 = (10 ^ 3) ^ g := by rw [← pow_mul, ← pow_mul, Nat.mul_comm]
    _ ≤ (2 ^ 10) ^ g := Nat.pow_le_pow_left (by decide) g
    _ = 2 ^ (10 * g) := (pow_mul 2 10 g).symm
    _ ≤ 2 ^ (3 * n) := Nat.pow_le_pow_right Nat.two_pos h
    _ = (2 ^ n) ^ 3 := by rw [← pow_mul, Nat.mul_comm]

/-- Nineteen digits are more than sixty-three bits. -/
theorem two_pow_le_ten_pow {n g : Nat} (h : 19 * n ≤ 63 * g) : 2 ^ n ≤ 10 ^ g := by
  refine (Nat.pow_le_pow_iff_left (n := 19) (by decide)).1 ?_
  calc (2 ^ n) ^ 19 = 2 ^ (19 * n) := by rw [← pow_mul, Nat.mul_comm]
    _ ≤ 2 ^ (63 * g) := Nat.pow_le_pow_right Nat.two_pos h
    _ = (2 ^ 63) ^ g := pow_mul 2 63 g
    _ ≤ (10 ^ 19) ^ g := Nat.pow_le_pow_left (by decide) g
    _ = (10 ^ g) ^ 19 := by rw [← pow_mul, ← pow_mul, Nat.mul_comm]

/-- On the last grid that is tried a step is no longer than a quarter of the last place. -/
theorem step_le_quarter (hm : m < 2 ^ 53) (hleast : -1074 ≤ e) (hmost : e ≤ 971) :
    (Rounding.of m e).step (coarsestGrid m e - 19) ≤
      (Rounding.of m e).quarter (coarsestGrid m e - 19) := by
  have hlog : m.log2 < 53 := by
    obtain rfl | hne := Nat.eq_zero_or_pos m
    · decide
    · exact (Nat.log2_lt hne.ne').2 hm
  have hexponent : (Rounding.of m e).exponent = e - 2 := rfl
  have hgrid : 100000 * (coarsestGrid m e - 19) ≤ 30103 * e - 204541 := by
    rw [coarsestGrid]
    omega
  generalize coarsestGrid m e - 19 = g at hgrid
  rw [Rounding.step, Rounding.quarter, hexponent, Nat.pow_eq, Nat.pow_eq, Nat.pow_eq, Nat.pow_eq]
  obtain hg | hg := le_total 0 g
  · have htwo : (-(e - 2)).toNat = 0 := by omega
    have hten : (-g).toNat = 0 := by omega
    rw [htwo, hten, pow_zero, pow_zero, Nat.one_mul, Nat.mul_one]
    exact ten_pow_le_two_pow (by omega)
  · have hten : g.toNat = 0 := by omega
    rw [hten, pow_zero, Nat.mul_one]
    refine (two_pow_le_ten_pow ?_).trans (Nat.le_mul_of_pos_left _ (Nat.two_pow_pos _))
    omega

/-! ## Shortest decimals -/

/-- The mantissa and the exponent of a finite double have one form only, and show its bits. -/
theorem mantissaExponent_spec {x : Float} (h : unsignedBits x < infinityBits) :
    Canonical (mantissaExponent x).1 (mantissaExponent x).2 ∧ (mantissaExponent x).2 ≤ 971 ∧
      unsignedBits x =
        ((mantissaExponent x).2 + 1074).toNat * leadingBit + (mantissaExponent x).1 := by
  have hinfinity : infinityBits = 2047 * 2 ^ 52 := rfl
  rw [mantissaExponent]
  by_cases hzero : unsignedBits x / leadingBit = 0
  · rw [if_pos hzero]
    rw [leadingBit] at hzero ⊢
    exact ⟨⟨by omega, by omega, by omega⟩, by omega, by omega⟩
  · rw [if_neg hzero]
    rw [leadingBit] at hzero ⊢
    exact ⟨⟨by omega, by omega, by omega⟩, by omega, by omega⟩

/-- The shortest decimal of a finite double rounds to it. -/
theorem shortest_mem {x : Float} (h : unsignedBits x < infinityBits) :
    (shortest x).value ∈
      (Rounding.of (mantissaExponent x).1 (mantissaExponent x).2).numbers := by
  obtain ⟨hc, hmost, -⟩ := mantissaExponent_spec h
  rw [shortest]
  generalize mantissaExponent x = p at hc hmost
  obtain ⟨m, e⟩ := p
  have hsome : ((List.range 20).findSome? fun (i : Nat) =>
      (Rounding.of m e).onGrid? (coarsestGrid m e - (i : Nat))).isSome := by
    rw [List.findSome?_isSome_iff]
    refine ⟨19, by decide, Rounding.isSome_onGrid? ?_ le_rfl ?_⟩
    · have hlow : (Rounding.of m e).low ≤ 4 * m := by
        rw [Rounding.of]
        dsimp only
        split <;> omega
      exact hlow
    · exact step_le_quarter hc.lt hc.least hmost
  obtain ⟨d, hd⟩ := Option.isSome_iff_exists.1 hsome
  obtain ⟨i, -, hi⟩ := List.exists_of_findSome?_eq_some hd
  dsimp only
  rw [hd]
  exact Rounding.onGrid?_mem hi

end Dialogue.Number
