import PromptCode.Py.Convert

/-!
# The milliseconds between two instants

`int((end - start).total_seconds() * 1000)`: a division and a product of floats, each
rounded, and a truncation.  The result is monotone, and over half a minute it is not above
the microseconds.
-/

namespace PromptCode.Py

namespace Double

/-- The double 1000. -/
def thousand : Double := ⟨false, 1000 * 2 ^ 43, 1031, by decide⟩

theorem units_thousand : thousand.units = 1000 * unit := by decide +kernel

end Double

/-- `timedelta.total_seconds()` of microseconds. -/
def totalSeconds (us : ℤ) : PyFloat :=
  .ofNearest (decide (us < 0)) (Double.nearest (decide (us < 0)) (us.natAbs * Double.unit)
    1000000)

/-- `int(delta.total_seconds() * 1000)` of microseconds; no timedelta has so many that the float
overflows. -/
@[irreducible] def wholeMs (us : ℤ) : ℤ :=
  ((totalSeconds us).mul (.finite .thousand)).truncated.getD 0

theorem mul_thousand (x : Double) : (PyFloat.finite x).mul (.finite .thousand) =
    .ofNearest x.neg (Double.nearest x.neg (x.units * Double.thousand.units) Double.unit) := by
  have hneg : xor x.neg Double.thousand.neg = x.neg := by
    unfold Double.thousand
    exact Bool.xor_false _
  rw [PyFloat.mul_finite, hneg]

theorem PyFloat.ofNearest_some (neg : Bool) (x : Double) :
    PyFloat.ofNearest neg (some x) = .finite x := rfl

/-- The seconds are rounded, multiplied and rounded again. -/
theorem wholeMs_eq {us : ℤ} {x y : Double}
    (hx : Double.nearest (decide (us < 0)) (us.natAbs * Double.unit) 1000000 = some x)
    (hy : Double.nearest (decide (us < 0)) (x.units * Double.thousand.units) Double.unit =
      some y) : wholeMs us = y.trunc := by
  have hsec : totalSeconds us = .finite x := by
    unfold totalSeconds
    rw [hx, PyFloat.ofNearest_some]
  have hneg := Double.neg_of_nearest hx
  have hmul : (totalSeconds us).mul (.finite .thousand) = .finite y := by
    rw [hsec, mul_thousand, hneg, hy, PyFloat.ofNearest_some]
  rw [wholeMs, hmul, PyFloat.truncated, Option.getD_some]

/-- Below `2 ^ 64` microseconds nothing overflows. -/
theorem exists_wholeMs {us : ℤ} (h : us.natAbs ≤ 2 ^ 64) : ∃ x y : Double,
    Double.nearest (decide (us < 0)) (us.natAbs * Double.unit) 1000000 = some x ∧
      Double.nearest (decide (us < 0)) (x.units * Double.thousand.units) Double.unit = some y := by
  obtain ⟨top, -, htop⟩ := Double.exists_units false (m := 1) (k := 1138) (by norm_num)
    (by norm_num)
  obtain ⟨top', -, htop'⟩ := Double.exists_units false (m := 1000) (k := 1138)
    (by norm_num) (by norm_num)
  have hunits : top.units = Double.unit * 2 ^ 64 := by
    rw [htop, one_mul, Double.unit, ← pow_add]
  have hunits' : top'.units = 1000 * top.units := by
    rw [htop, htop', one_mul]
  have hle : us.natAbs * Double.unit ≤ top.units * 1000000 :=
    calc us.natAbs * Double.unit ≤ 2 ^ 64 * Double.unit := Nat.mul_le_mul_right _ h
      _ = top.units := by rw [hunits, Nat.mul_comm]
      _ ≤ top.units * 1000000 := Nat.le_mul_of_pos_right _ (by norm_num)
  obtain ⟨x, hx⟩ := Double.exists_nearest (decide (us < 0)) (by norm_num) hle
  have hxle := Double.units_nearest_le (by norm_num) hx hle
  have hle' : x.units * Double.thousand.units ≤ top'.units * Double.unit :=
    calc x.units * Double.thousand.units ≤ top.units * Double.thousand.units :=
          Nat.mul_le_mul_right _ hxle
      _ = top'.units * Double.unit := by
          rw [Double.units_thousand, hunits']
          ring
  obtain ⟨y, hy⟩ := Double.exists_nearest (decide (us < 0)) Double.unit_pos hle'
  exact ⟨x, y, hx, hy⟩

theorem wholeMs_nonpos {us : ℤ} (hneg : us < 0) (h : us.natAbs ≤ 2 ^ 64) : wholeMs us ≤ 0 := by
  obtain ⟨x, y, hx, hy⟩ := exists_wholeMs h
  have hsign : y.neg = true := (Double.neg_of_nearest hy).trans (decide_eq_true hneg)
  rw [wholeMs_eq hx hy, Double.trunc, hsign, if_pos rfl]
  exact neg_nonpos.mpr (Int.natCast_nonneg _)

theorem wholeMs_of_nonneg {us : ℤ} (hpos : 0 ≤ us) {x y : Double}
    (hx : Double.nearest (decide (us < 0)) (us.natAbs * Double.unit) 1000000 = some x)
    (hy : Double.nearest (decide (us < 0)) (x.units * Double.thousand.units) Double.unit =
      some y) : wholeMs us = (y.units / Double.unit : ℕ) := by
  rw [wholeMs_eq hx hy]
  exact Double.trunc_nonneg ((Double.neg_of_nearest hy).trans (decide_eq_false (by omega)))

/-- A longer time has as many milliseconds or more. -/
theorem max_wholeMs_mono {a b : ℤ} (hab : a ≤ b) (ha : a.natAbs ≤ 2 ^ 64)
    (hb : b.natAbs ≤ 2 ^ 64) : max 0 (wholeMs a) ≤ max 0 (wholeMs b) := by
  rcases Int.lt_or_le a 0 with hneg | hpos
  · rw [max_eq_left (wholeMs_nonpos hneg ha)]
    exact le_max_left _ _
  · obtain ⟨x, y, hx, hy⟩ := exists_wholeMs ha
    obtain ⟨x', y', hx', hy'⟩ := exists_wholeMs hb
    have hseconds : x.units ≤ x'.units :=
      Double.nearest_mono hx hx' (Nat.mul_le_mul_right _ (by omega))
    have hproduct : y.units ≤ y'.units :=
      Double.nearest_mono hy hy' (Nat.mul_le_mul_right _ hseconds)
    rw [wholeMs_of_nonneg hpos hx hy, wholeMs_of_nonneg (hpos.trans hab) hx' hy']
    have hdiv := Nat.div_le_div_right (c := Double.unit) hproduct
    omega

/-- Up to half a minute the milliseconds are not rounded up. -/
theorem wholeMs_le_div {us : ℤ} (hpos : 0 ≤ us) (hlt : us < 30000000) :
    wholeMs us ≤ us / 1000 := by
  obtain ⟨n, rfl⟩ := Int.eq_ofNat_of_zero_le hpos
  obtain ⟨x, y, hx, hy⟩ := exists_wholeMs (show (n : ℤ).natAbs ≤ 2 ^ 64 by omega)
  -- a double not below the seconds, and its product with 1000
  let c := (n * 2 ^ 30 + 999999) / 1000000
  obtain ⟨seconds, -, hseconds⟩ := Double.exists_units false (m := c) (k := 1044)
    (by omega) (by norm_num)
  obtain ⟨ms, -, hms⟩ := Double.exists_units false (m := 1000 * c) (k := 1044)
    (by omega) (by norm_num)
  have hunit : Double.unit = 2 ^ 30 * 2 ^ 1044 := by
    rw [Double.unit, ← pow_add]
  have hxle : x.units ≤ seconds.units := by
    refine Double.units_nearest_le (by norm_num) hx ?_
    rw [hseconds, hunit, ← mul_assoc, mul_right_comm c]
    exact Nat.mul_le_mul_right _ (by omega)
  have hyle : y.units ≤ ms.units := by
    refine Double.units_nearest_le Double.unit_pos hy ?_
    rw [Double.units_thousand, hms]
    calc x.units * (1000 * Double.unit) ≤ seconds.units * (1000 * Double.unit) :=
          Nat.mul_le_mul_right _ hxle
      _ = 1000 * c * 2 ^ 1044 * Double.unit := by
          rw [hseconds]
          generalize 2 ^ 1044 = scale
          ring
  have hdiv :=
    calc y.units / Double.unit ≤ ms.units / Double.unit := Nat.div_le_div_right hyle
      _ = 1000 * c / 2 ^ 30 := by
          rw [hms, hunit, Nat.mul_div_mul_right _ _ (Nat.two_pow_pos 1044)]
  rw [wholeMs_of_nonneg hpos hx hy]
  omega

end PromptCode.Py
