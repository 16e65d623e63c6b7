import PromptCode.Py.Convert

/-!
# Floats from 0 to 1

A score carries that it lies between 0 and 1.  Products and quotients of scores are scores,
and a mean of scores is one, although every addition of the sum is rounded.
-/

namespace PromptCode.Py

namespace Double

theorem ext_of_units {x y : Double} (hneg : x.neg = y.neg) (hunits : x.units = y.units) :
    x = y := by
  have hx := nearest_units x
  rw [hneg, hunits, nearest_units y] at hx
  exact (Option.some.inj hx).symm

/-- A natural number up to `2 ^ 53` is a double. -/
theorem exists_nat {n : ℕ} (hn : n ≤ 2 ^ 53) :
    ∃ x : Double, x.neg = false ∧ x.units = n * unit := by
  rcases hn.lt_or_eq with hlt | rfl
  · exact exists_units false hlt (by norm_num)
  · obtain ⟨x, hneg, hx⟩ := exists_units false (show 2 ^ 52 < 2 ^ 53 by norm_num)
      (show 1074 + 1 ≤ 2045 by norm_num)
    refine ⟨x, hneg, ?_⟩
    rw [hx, unit, pow_add 2 1074 1]
    generalize 2 ^ 1074 = u
    omega

/-- What is a double already is not rounded. -/
theorem nearest_of_units {a : ℕ} {x : Double} (hneg : x.neg = false) (ha : a = x.units) :
    nearest false a 1 = some x := by
  rw [ha, ← hneg]
  exact nearest_units x

end Double

namespace PyFloat

/-- `x - y` -/
def sub (x y : PyFloat) : PyFloat := x.add y.neg

/-- `abs(x)` -/
def abs : PyFloat → PyFloat
  | finite x => finite ⟨false, x.mant, x.shift, x.normal⟩
  | inf _ => inf false
  | nan => nan

/-- `x / n` where `n`, the length of something, is exact as a float. -/
@[irreducible] def divNat (x : PyFloat) (n : ℕ) : PyFloat :=
  match x with
  | finite x => ofNearest x.neg (Double.nearest x.neg x.units n)
  | x => x

/-- The float of a decimal. -/
def ofDecimal (d : ℕ) (e : ℤ) : PyFloat := ofNearest false (Double.ofDecimal false d e)

def one : PyFloat := ofDecimal 1 0

/-- `x == 0` -/
def isZero : PyFloat → Bool
  | finite x => x.units = 0
  | _ => false

end PyFloat

/-- A float from 0 to 1. -/
structure UnitFloat where
  double : Double
  nonneg : double.neg = false
  le_one : double.units ≤ Double.unit

namespace UnitFloat

def units (s : UnitFloat) : ℕ := s.double.units

def toFloat (s : UnitFloat) : PyFloat := .finite s.double

theorem units_injective : Function.Injective units := by
  intro s t h
  have hdouble : s.double = t.double :=
    Double.ext_of_units (s.nonneg.trans t.nonneg.symm) h
  obtain ⟨x, hx, hx'⟩ := s
  obtain rfl : x = t.double := hdouble
  rfl

instance : LinearOrder UnitFloat := LinearOrder.lift' units units_injective

theorem le_iff {s t : UnitFloat} : s ≤ t ↔ s.units ≤ t.units := Iff.rfl

theorem lt_iff {s t : UnitFloat} : s < t ↔ s.units < t.units := Iff.rfl

theorem toFloat_injective : Function.Injective toFloat := by
  intro s t h
  exact units_injective (congrArg Double.units (PyFloat.finite.inj h))

theorem signed (s : UnitFloat) : s.double.signed = s.units := by
  rw [Double.signed, s.nonneg]
  rfl

/-- The comparison of two scores is the one of floats. -/
theorem lt_toFloat {s t : UnitFloat} : s.toFloat.lt t.toFloat = true ↔ s < t := by
  unfold toFloat
  rw [PyFloat.lt, signed, signed, lt_iff]
  simp

theorem ge_toFloat {s t : UnitFloat} : s.toFloat.ge t.toFloat = true ↔ t ≤ s := by
  have hge : s.toFloat.ge t.toFloat = !s.toFloat.lt t.toFloat := rfl
  rw [hge, Bool.not_eq_true', ← not_lt, ← lt_toFloat, Bool.not_eq_true]

def zero : UnitFloat := ⟨Double.zero, rfl, by simp [Double.units, Double.zero]⟩

theorem toFloat_zero : zero.toFloat = .zero := rfl

theorem zero_le (s : UnitFloat) : zero ≤ s := le_iff.mpr (Nat.zero_le _)

/-- The double 1. -/
def one : UnitFloat := ⟨⟨false, 2 ^ 52, 1022, by decide⟩, rfl, by decide +kernel⟩

theorem units_one : one.units = Double.unit := by decide +kernel

theorem le_one' (s : UnitFloat) : s ≤ one := by
  rw [le_iff, units_one]
  exact s.le_one

theorem units_ofDecimal_one :
    (Double.ofDecimal false 1 0).map Double.units = some Double.unit := by
  decide +kernel

theorem toFloat_one : one.toFloat = PyFloat.one := by
  obtain ⟨x, hx, hunits⟩ := Option.map_eq_some_iff.mp units_ofDecimal_one
  have hdouble : one.double = x :=
    Double.ext_of_units (Double.neg_of_nearest hx).symm (units_one.trans hunits.symm)
  rw [PyFloat.one, PyFloat.ofDecimal, hx, toFloat, hdouble]
  rfl

/-- What is at most one, rounded, is at most one. -/
theorem exists_nearest {a b : ℕ} (hb : 0 < b) (h : a ≤ Double.unit * b) :
    ∃ s : UnitFloat, Double.nearest false a b = some s.double := by
  rw [← units_one] at h
  obtain ⟨x, hx⟩ := Double.exists_nearest false hb h
  refine ⟨⟨x, Double.neg_of_nearest hx, ?_⟩, hx⟩
  exact (Double.units_nearest_le hb hx h).trans units_one.le

end UnitFloat

/-- The float as a score, if it is one. -/
def UnitFloat.ofFloat : PyFloat → Option UnitFloat
  | .finite x =>
      if h : x.neg = false ∧ x.units ≤ Double.unit then some ⟨x, h.1, h.2⟩ else none
  | _ => none

theorem UnitFloat.ofFloat_toFloat (s : UnitFloat) : ofFloat s.toFloat = some s := by
  rw [toFloat, ofFloat, dif_pos ⟨s.nonneg, s.le_one⟩]

/-- The float is a score. -/
def PyFloat.IsUnit (x : PyFloat) : Prop := ∃ s : UnitFloat, x = s.toFloat

namespace PyFloat

theorem isUnit_toFloat (s : UnitFloat) : s.toFloat.IsUnit := ⟨s, rfl⟩

theorem isUnit_zero : zero.IsUnit := ⟨.zero, rfl⟩

theorem isUnit_one : one.IsUnit := ⟨.one, UnitFloat.toFloat_one.symm⟩

/-- A decimal below 1 is a score. -/
theorem isUnit_ofDecimal {d : ℕ} {e : ℤ} (he : e ≤ 0) (h : d ≤ 10 ^ (-e).toNat) :
    (ofDecimal d e).IsUnit := by
  have hle : d * 10 ^ e.toNat * Double.unit ≤ Double.unit * 10 ^ (-e).toNat := by
    rw [Int.toNat_of_nonpos he, pow_zero, mul_one, mul_comm]
    exact Nat.mul_le_mul_left _ h
  obtain ⟨s, hs⟩ := UnitFloat.exists_nearest (by positivity) hle
  refine ⟨s, ?_⟩
  rw [ofDecimal, Double.ofDecimal, hs]
  rfl

theorem isUnit_trueDiv {a b : ℕ} (hb : 0 < b) (h : a ≤ b) : (trueDiv a b).IsUnit := by
  have hle : a * Double.unit ≤ Double.unit * b := by
    rw [mul_comm]
    exact Nat.mul_le_mul_left _ h
  obtain ⟨s, hs⟩ := UnitFloat.exists_nearest hb hle
  refine ⟨s, ?_⟩
  rw [trueDiv, hs]
  rfl

theorem IsUnit.mul {x y : PyFloat} (hx : x.IsUnit) (hy : y.IsUnit) : (x.mul y).IsUnit := by
  obtain ⟨s, rfl⟩ := hx
  obtain ⟨t, rfl⟩ := hy
  obtain ⟨p, hp⟩ := UnitFloat.exists_nearest Double.unit_pos
    (Nat.mul_le_mul s.le_one t.le_one)
  refine ⟨p, ?_⟩
  unfold UnitFloat.toFloat
  rw [mul_finite, s.nonneg, t.nonneg]
  simp only [Bool.xor_false]
  rw [hp]
  rfl

theorem IsUnit.round {x : PyFloat} (hx : x.IsUnit) (digits : ℕ) : (x.round digits).IsUnit := by
  obtain ⟨s, rfl⟩ := hx
  have hle : roundDiv (s.double.units * 10 ^ digits) Double.unit ≤ 10 ^ digits := by
    apply roundDiv_le_of_le Double.unit_pos
    rw [mul_comm]
    exact Nat.mul_le_mul_left _ s.le_one
  have hdecimal := isUnit_ofDecimal (e := -digits) (by omega)
    (show roundDiv (s.double.units * 10 ^ digits) Double.unit ≤ 10 ^ (-(-digits : ℤ)).toNat by
      rwa [show (-(-digits : ℤ)).toNat = digits by omega])
  rw [UnitFloat.toFloat, PyFloat.round, s.nonneg]
  exact hdecimal

/-! ## Sums -/

/-- A partial sum of `n` scores: each addition is rounded, and beyond `2 ^ 53` adding 1 does
nothing. -/
def IsSum (n : ℕ) (x : PyFloat) : Prop :=
  ∃ d : Double, x = finite d ∧ d.neg = false ∧ d.units ≤ Min.min n (2 ^ 53) * Double.unit

theorem isSum_zero : IsSum 0 zero := ⟨.zero, rfl, rfl, by simp [Double.units, Double.zero]⟩

theorem IsSum.mono {n m : ℕ} {x : PyFloat} (h : IsSum n x) (hle : n ≤ m) : IsSum m x := by
  obtain ⟨d, hd, hneg, hunits⟩ := h
  exact ⟨d, hd, hneg, hunits.trans (Nat.mul_le_mul_right _ (by omega))⟩

theorem add_finite {x y : Double} (hx : x.neg = false) (hy : y.neg = false) :
    (finite x).add (finite y) =
      ofNearest false (Double.nearest false (x.units + y.units) 1) := by
  have hsum : x.signed + y.signed = ((x.units + y.units : ℕ) : ℤ) := by
    rw [Double.signed, Double.signed, hx, hy]
    push_cast
    rfl
  have hneg : (if ((x.units + y.units : ℕ) : ℤ) = 0 then false && false
      else decide (((x.units + y.units : ℕ) : ℤ) < 0)) = false := by
    split_ifs
    · rfl
    · exact decide_eq_false (by omega)
  unfold PyFloat.add
  dsimp only
  rw [hsum, hx, hy, hneg, Int.natAbs_natCast]

/-- Past `2 ^ 53` another 1 is rounded away. -/
theorem nearest_past_limit :
    (Double.nearest false ((2 ^ 53 + 1) * Double.unit) 1).map Double.units =
      some (2 ^ 53 * Double.unit) := by
  decide +kernel

theorem IsSum.add {n : ℕ} {x : PyFloat} (hx : IsSum n x) (s : UnitFloat) :
    IsSum (n + 1) (x.add s.toFloat) := by
  obtain ⟨d, rfl, hneg, hunits⟩ := hx
  unfold UnitFloat.toFloat
  rw [add_finite hneg s.nonneg]
  have hle := s.le_one
  rcases Nat.lt_or_ge n (2 ^ 53) with hlt | hge
  · obtain ⟨y, hy, hyunits⟩ := Double.exists_nat (show n + 1 ≤ 2 ^ 53 by omega)
    rw [min_eq_left (by omega)] at hunits
    have hbound : d.units + s.double.units ≤ y.units * 1 := by
      rw [hyunits, mul_one, add_mul, one_mul]
      exact Nat.add_le_add hunits hle
    obtain ⟨z, hz⟩ := Double.exists_nearest false one_pos hbound
    refine ⟨z, by rw [hz]; rfl, Double.neg_of_nearest hz, ?_⟩
    rw [min_eq_left (by omega), ← hyunits]
    exact Double.units_nearest_le one_pos hz hbound
  · rw [min_eq_right hge] at hunits
    obtain ⟨w, hw, hwunits⟩ := Option.map_eq_some_iff.mp nearest_past_limit
    have hbound : d.units + s.double.units ≤ (2 ^ 53 + 1) * Double.unit := by
      rw [add_mul, one_mul]
      exact Nat.add_le_add hunits hle
    obtain ⟨y, hy, hyunits⟩ := Double.exists_units false (show 2 ^ 52 < 2 ^ 53 by norm_num)
      (show 1074 + 2 ≤ 2045 by norm_num)
    have hroom : d.units + s.double.units ≤ y.units * 1 := by
      refine hbound.trans ?_
      rw [hyunits, mul_one, Double.unit, pow_add 2 1074 2]
      generalize 2 ^ 1074 = u
      omega
    obtain ⟨z, hz⟩ := Double.exists_nearest false one_pos hroom
    refine ⟨z, by rw [hz]; rfl, Double.neg_of_nearest hz, ?_⟩
    rw [min_eq_right (by omega), ← hwunits]
    exact Double.nearest_mono hz hw hbound

/-- The mean of scores is a score. -/
theorem IsSum.divNat {n : ℕ} {x : PyFloat} (hx : IsSum n x) (hn : 0 < n) :
    (x.divNat n).IsUnit := by
  obtain ⟨d, rfl, hneg, hunits⟩ := hx
  have hle : d.units ≤ Double.unit * n := by
    rw [mul_comm]
    exact hunits.trans (Nat.mul_le_mul_right _ (min_le_left _ _))
  obtain ⟨s, hs⟩ := UnitFloat.exists_nearest hn hle
  refine ⟨s, ?_⟩
  unfold PyFloat.divNat
  dsimp only
  rw [hneg, hs]
  rfl

/-- The float is exactly that natural number. -/
def IsCount (n : ℕ) (x : PyFloat) : Prop :=
  ∃ d : Double, x = finite d ∧ d.neg = false ∧ d.units = n * Double.unit

theorem isCount_zero : IsCount 0 zero :=
  ⟨.zero, rfl, rfl, by simp [Double.units, Double.zero]⟩

theorem isCount_one : IsCount 1 one := by
  rw [← UnitFloat.toFloat_one]
  refine ⟨UnitFloat.one.double, rfl, rfl, ?_⟩
  rw [one_mul]
  exact UnitFloat.units_one

/-- Up to `2 ^ 53` a sum of counts is exact. -/
theorem IsCount.add {n m : ℕ} {x y : PyFloat} (hx : IsCount n x) (hy : IsCount m y)
    (h : n + m ≤ 2 ^ 53) : IsCount (n + m) (x.add y) := by
  obtain ⟨d, rfl, hneg, hunits⟩ := hx
  obtain ⟨e, rfl, hneg', hunits'⟩ := hy
  obtain ⟨z, hz, hzunits⟩ := Double.exists_nat h
  refine ⟨z, ?_, hz, hzunits⟩
  have hsum : d.units + e.units = z.units := by
    rw [hunits, hunits', hzunits, add_mul]
  rw [add_finite hneg hneg', Double.nearest_of_units hz hsum]
  rfl

/-- A number over itself is 1. -/
theorem IsCount.divNat_self {n : ℕ} {x : PyFloat} (hx : IsCount n x) (hn : 0 < n) :
    x.divNat n = one := by
  obtain ⟨d, rfl, hneg, hunits⟩ := hx
  have hunit : Double.nearest false Double.unit 1 = some UnitFloat.one.double :=
    Double.nearest_of_units UnitFloat.one.nonneg UnitFloat.units_one.symm
  have hratio : Double.nearest false d.units n = some UnitFloat.one.double := by
    rw [← hunit, hunits]
    exact Double.nearest_congr false hn one_pos (by rw [mul_one, mul_comm])
  rw [← UnitFloat.toFloat_one]
  unfold PyFloat.divNat
  dsimp only
  rw [hneg, hratio]
  rfl

/-- A sum of ones is exact up to `2 ^ 53`. -/
theorem isCount_foldl_ones {scores : List PyFloat} (h : ∀ s ∈ scores, s = one) {n : ℕ}
    {total : PyFloat} (htotal : IsCount n total) (hle : n + scores.length ≤ 2 ^ 53) :
    IsCount (n + scores.length) (scores.foldl PyFloat.add total) := by
  induction scores generalizing n total with
  | nil => exact htotal
  | cons s scores ih =>
      rw [List.length_cons] at hle ⊢
      have hnext : IsCount (n + 1) (total.add s) := by
        rw [h s (by simp)]
        exact htotal.add isCount_one (by omega)
      have hrest := ih (fun s hs => h s (by simp [hs])) hnext (by omega)
      rw [show n + (scores.length + 1) = n + 1 + scores.length by omega]
      exact hrest

end PyFloat

end PromptCode.Py
