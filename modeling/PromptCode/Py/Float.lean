import Mathlib.Data.Nat.Log
import Mathlib.Data.Nat.Bitwise
import Mathlib.Tactic.Ring
import Mathlib.Tactic.Linarith
import PromptCode.Py.Json

/-!
# Floats

The finite doubles, as multiples of the smallest positive one.  A ratio of natural
numbers is rounded to the nearest double, a tie to the even one; `round` and `repr`
go through decimal digits.
-/

namespace PromptCode.Py

/-! ## Rounding -/

/-- The nearest integer of a ratio, a tie to the even one. -/
def roundDiv (a b : ℕ) : ℕ :=
  if 2 * (a % b) < b ∨ (2 * (a % b) = b ∧ a / b % 2 = 0) then a / b else a / b + 1

theorem roundDiv_le_succ (a b : ℕ) : roundDiv a b ≤ a / b + 1 := by
  unfold roundDiv
  split_ifs <;> omega

theorem div_le_roundDiv (a b : ℕ) : a / b ≤ roundDiv a b := by
  unfold roundDiv
  split_ifs <;> omega

theorem roundDiv_mul_self {b : ℕ} (hb : 0 < b) (n : ℕ) : roundDiv (n * b) b = n := by
  unfold roundDiv
  rw [Nat.mul_mod_left, Nat.mul_div_cancel _ hb, if_pos (Or.inl (by omega))]

theorem roundDiv_mul_mul (a b : ℕ) {c : ℕ} (hc : 0 < c) :
    roundDiv (a * c) (b * c) = roundDiv a b := by
  have hcomm : 2 * (a % b * c) = 2 * (a % b) * c := by ring
  unfold roundDiv
  rw [Nat.mul_mod_mul_right, Nat.mul_div_mul_right _ _ hc, hcomm]
  simp only [Nat.mul_lt_mul_right hc, Nat.mul_left_inj (Nat.ne_of_gt hc)]

theorem roundDiv_le_of_le {a b n : ℕ} (hb : 0 < b) (h : a ≤ n * b) :
    roundDiv a b ≤ n := by
  rcases Nat.lt_or_ge a (n * b) with hlt | hge
  · have hdiv : a / b < n := (Nat.div_lt_iff_lt_mul hb).mpr hlt
    exact (roundDiv_le_succ a b).trans hdiv
  · obtain rfl := le_antisymm h hge
    exact (roundDiv_mul_self hb n).le

theorem roundDiv_le_of_lt_half {a b n : ℕ} (hb : 0 < b) (h : 2 * a < (2 * n + 1) * b) :
    roundDiv a b ≤ n := by
  have hdiv := Nat.div_add_mod a b
  rcases Nat.lt_trichotomy (a / b) n with hlt | heq | hgt
  · exact (roundDiv_le_succ a b).trans hlt
  · unfold roundDiv
    rw [heq] at hdiv ⊢
    have hmod : 2 * (a % b) < b := by nlinarith
    rw [if_pos (Or.inl hmod)]
  · have hle : (n + 1) * b ≤ b * (a / b) := by
      rw [mul_comm]
      exact Nat.mul_le_mul_left b hgt
    have hlow : (n + 1) * b ≤ a := by omega
    exfalso
    nlinarith

theorem roundDiv_mono {a a' : ℕ} (b : ℕ) (h : a ≤ a') : roundDiv a b ≤ roundDiv a' b := by
  rcases (Nat.div_le_div_right h : a / b ≤ a' / b).lt_or_eq with hlt | heq
  · exact (roundDiv_le_succ a b).trans ((Nat.succ_le_of_lt hlt).trans (div_le_roundDiv a' b))
  · have hmod := Nat.div_add_mod a b
    have hmod' := Nat.div_add_mod a' b
    unfold roundDiv
    rw [heq] at hmod ⊢
    split_ifs <;> omega

/-! ## Doubles -/

/-- `(-1) ^ neg * mant * 2 ^ shift`, in units of `2 ^ -1074`. -/
structure Double where
  neg : Bool
  mant : ℕ
  shift : ℕ
  normal : mant < 2 ^ 53 ∧ (shift = 0 ∨ 2 ^ 52 ≤ mant) ∧ shift ≤ 2045
  deriving DecidableEq

namespace Double

/-- The unit, as a denominator. -/
def unit : ℕ := 2 ^ 1074

/-- The magnitude in units. -/
def units (x : Double) : ℕ := x.mant * 2 ^ x.shift

/-- The bits that do not fit into a mantissa. -/
def excess (n : ℕ) : ℕ := Nat.log2 n - 52

/-- The double nearest to `a / b` units, unless that overflows. -/
def nearest (neg : Bool) (a b : ℕ) : Option Double :=
  let s := excess (a / b)
  let m := roundDiv a (b * 2 ^ s)
  if h : m < 2 ^ 53 ∧ (s = 0 ∨ 2 ^ 52 ≤ m) ∧ s ≤ 2045 then some ⟨neg, m, s, h⟩
  -- rounding up has carried into another bit
  else if h' : s + 1 ≤ 2045 then
    some ⟨neg, 2 ^ 52, s + 1, by norm_num, Or.inr le_rfl, h'⟩
  else none

theorem lt_two_pow_excess (n : ℕ) : n / 2 ^ excess n < 2 ^ 53 := by
  rw [Nat.div_lt_iff_lt_mul (by positivity), ← pow_add]
  refine lt_of_lt_of_le Nat.lt_log2_self (Nat.pow_le_pow_right (by norm_num) ?_)
  unfold excess
  omega

theorem two_pow_le_of_excess {n : ℕ} (h : excess n ≠ 0) :
    2 ^ 52 ≤ n / 2 ^ excess n := by
  have hlog : Nat.log2 n = 52 + excess n := by
    unfold excess at h ⊢
    omega
  have hn : n ≠ 0 := by
    rintro rfl
    exact h (by decide)
  rw [Nat.le_div_iff_mul_le (by positivity), ← pow_add, ← hlog]
  exact Nat.log2_self_le hn

theorem div_mul_pow (a b s : ℕ) : a / (b * 2 ^ s) = a / b / 2 ^ s :=
  (Nat.div_div_eq_div_mul a b _).symm

/-- The rounded mantissa fits, or it is the first that does not. -/
theorem roundDiv_excess (a b : ℕ) :
    (excess (a / b) = 0 ∨ 2 ^ 52 ≤ roundDiv a (b * 2 ^ excess (a / b))) ∧
      roundDiv a (b * 2 ^ excess (a / b)) ≤ 2 ^ 53 := by
  constructor
  · refine or_iff_not_imp_left.mpr fun h => ?_
    refine le_trans ?_ (div_le_roundDiv _ _)
    rw [div_mul_pow]
    exact two_pow_le_of_excess h
  · refine (roundDiv_le_succ _ _).trans ?_
    rw [div_mul_pow]
    exact lt_two_pow_excess _

theorem nearest_mul_mul (neg : Bool) (a b : ℕ) {c : ℕ} (hc : 0 < c) :
    nearest neg (a * c) (b * c) = nearest neg a b := by
  have hdiv : a * c / (b * c) = a / b := Nat.mul_div_mul_right a b hc
  have hround (s : ℕ) : roundDiv (a * c) (b * c * 2 ^ s) =
      roundDiv a (b * 2 ^ s) := by
    rw [mul_right_comm]
    exact roundDiv_mul_mul a _ hc
  simp only [nearest, hdiv, hround]

theorem excess_units (x : Double) : excess x.units = x.shift := by
  obtain ⟨hlt, hnorm, -⟩ := x.normal
  unfold excess units
  rcases hnorm with hzero | hle
  · rw [hzero, pow_zero, mul_one]
    rcases Nat.eq_zero_or_pos x.mant with hm | hm
    · rw [hm]
      decide
    · have := (Nat.log2_lt hm.ne').mpr hlt
      omega
  · have hlog : Nat.log2 (x.mant * 2 ^ x.shift) = 52 + x.shift := by
      rw [Nat.log2_eq_iff (by positivity)]
      constructor
      · rw [pow_add]
        exact Nat.mul_le_mul_right _ hle
      · rw [show 52 + x.shift + 1 = 53 + x.shift by omega, pow_add]
        exact Nat.mul_lt_mul_of_pos_right hlt (by positivity)
    omega

/-- A double is nearest to itself. -/
theorem nearest_units (x : Double) : nearest x.neg x.units 1 = some x := by
  have hround : roundDiv x.units (1 * 2 ^ x.shift) = x.mant := by
    rw [one_mul]
    exact roundDiv_mul_self (by positivity) x.mant
  simp only [nearest, Nat.div_one, excess_units, hround]
  rw [dif_pos x.normal]

theorem units_lt (x : Double) : x.units < 2 ^ (53 + x.shift) := by
  rw [units, pow_add]
  exact Nat.mul_lt_mul_of_pos_right x.normal.1 (by positivity)

theorem excess_le_shift {n : ℕ} {y : Double} (h : n ≤ y.units) :
    excess n ≤ y.shift := by
  by_contra hlt
  have hbig := two_pow_le_of_excess (show excess n ≠ 0 by omega)
  rw [Nat.le_div_iff_mul_le (by positivity), ← pow_add] at hbig
  have hmono : 2 ^ (53 + y.shift) ≤ 2 ^ (52 + excess n) :=
    Nat.pow_le_pow_right (by norm_num) (by omega)
  have := y.units_lt
  omega

/-- The rounded mantissa does not pass that of a double above, at one scale. -/
theorem roundDiv_mul_le {a b : ℕ} {y : Double} (hb : 0 < b)
    (hle : a ≤ y.units * b) :
    roundDiv a (b * 2 ^ excess (a / b)) * 2 ^ excess (a / b) ≤ y.units := by
  have hdiv : a / b ≤ y.units := Nat.div_le_of_le_mul (by rwa [mul_comm])
  have hshift := excess_le_shift hdiv
  have hunits : y.units =
      y.mant * 2 ^ (y.shift - excess (a / b)) * 2 ^ excess (a / b) := by
    rw [units, mul_assoc, ← pow_add, Nat.sub_add_cancel hshift]
  rw [hunits]
  refine Nat.mul_le_mul_right _ (roundDiv_le_of_le (by positivity) ?_)
  calc a ≤ y.units * b := hle
    _ = y.mant * 2 ^ (y.shift - excess (a / b)) * (b * 2 ^ excess (a / b)) := by
        rw [hunits]
        ring

/-- A mantissa that does not fit is the first that does not. -/
theorem roundDiv_eq_of_not_fit {a b : ℕ} (hshift : excess (a / b) ≤ 2045)
    (h : ¬ (roundDiv a (b * 2 ^ excess (a / b)) < 2 ^ 53 ∧
      (excess (a / b) = 0 ∨ 2 ^ 52 ≤ roundDiv a (b * 2 ^ excess (a / b))) ∧
      excess (a / b) ≤ 2045)) :
    roundDiv a (b * 2 ^ excess (a / b)) = 2 ^ 53 := by
  obtain ⟨hlow, hhigh⟩ := roundDiv_excess a b
  by_contra hne
  exact h ⟨lt_of_le_of_ne hhigh hne, hlow, hshift⟩

/-- Rounding does not pass a double. -/
theorem units_nearest_le {neg : Bool} {a b : ℕ} {x y : Double} (hb : 0 < b)
    (h : nearest neg a b = some x) (hle : a ≤ y.units * b) : x.units ≤ y.units := by
  have hround := roundDiv_mul_le hb hle
  unfold nearest at h
  dsimp only at h
  split_ifs at h with hfit hcarry
  · obtain rfl := Option.some.inj h
    exact hround
  · obtain rfl := Option.some.inj h
    rw [roundDiv_eq_of_not_fit (by omega) hfit] at hround
    refine le_trans (le_of_eq ?_) hround
    simp only [units]
    ring

/-- What is rounded keeps its scale, also where the rounding carries. -/
theorem units_of_nearest {neg : Bool} {a b : ℕ} {x : Double} (h : nearest neg a b = some x) :
    x.units = roundDiv a (b * 2 ^ excess (a / b)) * 2 ^ excess (a / b) := by
  unfold nearest at h
  dsimp only at h
  split_ifs at h with hfit hcarry
  · obtain rfl := Option.some.inj h
    rfl
  · obtain rfl := Option.some.inj h
    rw [roundDiv_eq_of_not_fit (by omega) hfit]
    simp only [units]
    ring

theorem excess_mono {n m : ℕ} (h : n ≤ m) : excess n ≤ excess m := by
  unfold excess
  have hlog : Nat.log2 n ≤ Nat.log2 m := by
    rw [Nat.log2_eq_log_two, Nat.log2_eq_log_two]
    exact Nat.log_mono_right h
  omega

/-- Rounding is monotone. -/
theorem nearest_mono {neg neg' : Bool} {a a' b : ℕ} {x x' : Double} (h : nearest neg a b = some x)
    (h' : nearest neg' a' b = some x') (hle : a ≤ a') : x.units ≤ x'.units := by
  rw [units_of_nearest h, units_of_nearest h']
  rcases (excess_mono (Nat.div_le_div_right hle : a / b ≤ a' / b)).lt_or_eq with hlt | heq
  · obtain ⟨-, hhigh⟩ := roundDiv_excess a b
    obtain ⟨hlow, -⟩ := roundDiv_excess a' b
    have hmant := hlow.resolve_left (by omega)
    calc roundDiv a (b * 2 ^ excess (a / b)) * 2 ^ excess (a / b)
        ≤ 2 ^ 53 * 2 ^ excess (a / b) := Nat.mul_le_mul_right _ hhigh
      _ = 2 ^ 52 * 2 ^ (excess (a / b) + 1) := by ring
      _ ≤ 2 ^ 52 * 2 ^ excess (a' / b) :=
          Nat.mul_le_mul_left _ (Nat.pow_le_pow_right (by norm_num) hlt)
      _ ≤ roundDiv a' (b * 2 ^ excess (a' / b)) * 2 ^ excess (a' / b) :=
          Nat.mul_le_mul_right _ hmant
  · rw [heq]
    exact Nat.mul_le_mul_right _ (roundDiv_mono _ hle)

/-- A mantissa need not be normalised. -/
theorem exists_units (neg : Bool) {m k : ℕ} (hm : m < 2 ^ 53) (hk : k ≤ 2045) :
    ∃ x : Double, x.neg = neg ∧ x.units = m * 2 ^ k := by
  induction k generalizing m with
  | zero => exact ⟨⟨neg, m, 0, hm, Or.inl rfl, hk⟩, rfl, rfl⟩
  | succ k ih =>
      rcases Nat.lt_or_ge m (2 ^ 52) with hlt | hge
      · obtain ⟨x, hneg, hx⟩ := ih (m := 2 * m) (by omega) (by omega)
        refine ⟨x, hneg, ?_⟩
        rw [hx]
        ring
      · exact ⟨⟨neg, m, k + 1, hm, Or.inr hge, hk⟩, rfl, rfl⟩

/-- A ratio that is not above some double does not overflow. -/
theorem exists_nearest (neg : Bool) {a b : ℕ} {y : Double} (hb : 0 < b)
    (hle : a ≤ y.units * b) : ∃ x, nearest neg a b = some x := by
  have hdiv : a / b ≤ y.units := Nat.div_le_of_le_mul (by rwa [mul_comm])
  have hexcess : excess (a / b) ≤ 2045 := (excess_le_shift hdiv).trans y.normal.2.2
  unfold nearest
  dsimp only
  split_ifs with hfit hcarry
  · exact ⟨_, rfl⟩
  · exact ⟨_, rfl⟩
  · have hround := roundDiv_mul_le hb hle
    rw [roundDiv_eq_of_not_fit hexcess hfit, ← pow_add] at hround
    have hshift : y.shift ≤ excess (a / b) := by
      have := y.normal.2.2
      omega
    have hmono : 2 ^ (53 + y.shift) ≤ 2 ^ (53 + excess (a / b)) :=
      Nat.pow_le_pow_right (by norm_num) (by omega)
    exact absurd hround (not_le.mpr (y.units_lt.trans_le hmono))

theorem nearest_congr (neg : Bool) {a b a' b' : ℕ} (hb : 0 < b) (hb' : 0 < b')
    (h : a * b' = a' * b) : nearest neg a b = nearest neg a' b' :=
  calc nearest neg a b = nearest neg (a * b') (b * b') :=
        (nearest_mul_mul neg a b hb').symm
    _ = nearest neg (a' * b) (b' * b) := by rw [h, mul_comm b b']
    _ = nearest neg a' b' := nearest_mul_mul neg a' b' hb

theorem neg_of_nearest {neg : Bool} {a b : ℕ} {x : Double}
    (h : nearest neg a b = some x) : x.neg = neg := by
  unfold nearest at h
  dsimp only at h
  split_ifs at h
  · obtain rfl := Option.some.inj h
    rfl
  · obtain rfl := Option.some.inj h
    rfl

theorem unit_pos : 0 < unit := by
  unfold unit
  positivity

/-- The double 100. -/
def hundred : Double := ⟨false, 100 * 2 ^ 46, 1028, by decide⟩

theorem units_hundred : hundred.units = 100 * unit := by decide +kernel

/-- The double nearest to `d * 10 ^ e`. -/
def ofDecimal (neg : Bool) (d : ℕ) (e : ℤ) : Option Double :=
  nearest neg (d * 10 ^ e.toNat * unit) (10 ^ (-e).toNat)

theorem ofDecimal_mul_pow (neg : Bool) (d j : ℕ) (e : ℤ) :
    ofDecimal neg (d * 10 ^ j) e = ofDecimal neg d (e + j) := by
  have hexp : j + e.toNat + (-(e + j)).toNat = (e + j).toNat + (-e).toNat := by omega
  apply nearest_congr neg (by positivity) (by positivity)
  calc d * 10 ^ j * 10 ^ e.toNat * unit * 10 ^ (-(e + j)).toNat
      = d * unit * 10 ^ (j + e.toNat + (-(e + j)).toNat) := by
        rw [pow_add, pow_add]
        ring
    _ = d * 10 ^ (e + j).toNat * unit * 10 ^ (-e).toNat := by
        rw [hexp, pow_add]
        ring

end Double

/-! ## Arithmetic -/

inductive PyFloat where
  | finite (x : Double)
  | inf (neg : Bool)
  | nan
  deriving DecidableEq

namespace PyFloat

def ofNearest (neg : Bool) : Option Double → PyFloat
  | some x => finite x
  | none => inf neg

/-- The quotient of two integers that are not negative. -/
def trueDiv (a b : ℕ) : PyFloat := ofNearest false (Double.nearest false (a * Double.unit) b)

/-- `round(x, digits)`. -/
def round (digits : ℕ) : PyFloat → PyFloat
  | finite x =>
      ofNearest x.neg (Double.ofDecimal x.neg
        (roundDiv (x.units * 10 ^ digits) Double.unit) (-digits))
  | x => x

/-- A rounded quotient is not above a double that rounds to a decimal not above it. -/
theorem round_trueDiv_le {a b m digits : ℕ} {y : Double} (hb : 0 < b)
    (hle : a * Double.unit ≤ y.units * b)
    (hround : 2 * (y.units * 10 ^ digits) < (2 * m + 1) * Double.unit)
    (hm : m * Double.unit ≤ y.units * 10 ^ digits) :
    ∃ x : Double, (trueDiv a b).round digits = finite x ∧ x.neg = false ∧
      x.units ≤ y.units := by
  have hunit : 0 < Double.unit := by
    unfold Double.unit
    positivity
  obtain ⟨q, hq⟩ := Double.exists_nearest false hb hle
  have hbelow := Double.units_nearest_le hb hq hle
  have hdigits : roundDiv (q.units * 10 ^ digits) Double.unit ≤ m := by
    apply roundDiv_le_of_lt_half hunit
    calc 2 * (q.units * 10 ^ digits) ≤ 2 * (y.units * 10 ^ digits) :=
          Nat.mul_le_mul_left _ (Nat.mul_le_mul_right _ hbelow)
      _ < (2 * m + 1) * Double.unit := hround
  have hdecimal : roundDiv (q.units * 10 ^ digits) Double.unit *
      10 ^ (-(digits : ℤ)).toNat * Double.unit ≤
        y.units * 10 ^ (-(-(digits : ℤ))).toNat := by
    rw [show (-(-(digits : ℤ))).toNat = digits by omega,
      show (-(digits : ℤ)).toNat = 0 by omega, pow_zero, mul_one]
    exact (Nat.mul_le_mul_right _ hdigits).trans hm
  obtain ⟨x, hx⟩ := Double.exists_nearest q.neg (by positivity) hdecimal
  refine ⟨x, ?_, (Double.neg_of_nearest hx).trans (Double.neg_of_nearest hq),
    Double.units_nearest_le (by positivity) hx hdecimal⟩
  rw [trueDiv, hq, ofNearest, round]
  exact congrArg (ofNearest q.neg) hx

/-- A rounded percentage is a float from 0 to 100. -/
theorem round_trueDiv_percent {a b : ℕ} (hb : 0 < b) (h : a ≤ 100 * b) (digits : ℕ) :
    ∃ y : Double, (trueDiv a b).round digits = finite y ∧ y.neg = false ∧
      y.units ≤ Double.hundred.units := by
  have hunit : 0 < Double.unit := by
    unfold Double.unit
    positivity
  apply round_trueDiv_le hb
  · rw [Double.units_hundred]
    calc a * Double.unit ≤ 100 * b * Double.unit := Nat.mul_le_mul_right _ h
      _ = 100 * Double.unit * b := by ring
  · rw [Double.units_hundred]
    calc 2 * (100 * Double.unit * 10 ^ digits)
        = 2 * (100 * 10 ^ digits) * Double.unit := by ring
      _ < (2 * (100 * 10 ^ digits) + 1) * Double.unit :=
          Nat.mul_lt_mul_of_pos_right (Nat.lt_succ_self _) hunit
  · rw [Double.units_hundred]
    exact le_of_eq (by ring)

/-- Equality of a float and an integer. -/
def eqInt : PyFloat → ℤ → Bool
  | finite x, z =>
      x.units = z.natAbs * Double.unit && (x.units = 0 || x.neg == decide (z < 0))
  | _, _ => false

/-- Equality of two floats: the two zeros are equal, `nan` is equal to nothing. -/
def eqFloat : PyFloat → PyFloat → Bool
  | finite x, finite y => x.units = y.units && (x.units = 0 || x.neg == y.neg)
  | inf a, inf b => a == b
  | _, _ => false

end PyFloat

/-! ## Decimal digits -/

/-- The value of decimal digits. -/
def digitsValue (s : Str) : ℕ := s.foldl (fun n c => 10 * n + (c.val - 48)) 0

theorem digitsValue_append (s t : Str) :
    digitsValue (s ++ t) = digitsValue s * 10 ^ t.length + digitsValue t := by
  have hfold : ∀ (t : Str) (n : ℕ),
      t.foldl (fun n c => 10 * n + (c.val - 48)) n =
        n * 10 ^ t.length + digitsValue t := by
    intro t
    induction t with
    | nil => simp [digitsValue]
    | cons c t ih =>
        intro n
        have hzero := ih (10 * 0 + (c.val - 48))
        rw [digitsValue, List.foldl_cons, List.foldl_cons, ih, hzero, List.length_cons]
        ring
  rw [digitsValue, List.foldl_append]
  exact hfold t _

theorem digitsValue_jsonNat (n : ℕ) : digitsValue (jsonNat n) = n := by
  have hdigits := Nat.ofDigitChars_ten_toDigits (n := n)
  rw [Nat.ofDigitChars_eq_foldl] at hdigits
  rw [digitsValue, jsonNat, List.foldl_map]
  exact hdigits

def zeros (n : ℕ) : Str := List.replicate n 48

theorem digitsValue_zeros (n : ℕ) : digitsValue (zeros n) = 0 := by
  induction n with
  | zero => rfl
  | succ n ih =>
      rw [zeros, List.replicate_succ, ← List.singleton_append, digitsValue_append]
      simpa [digitsValue, zeros] using ih

theorem jsonNat_ne_nil (n : ℕ) : jsonNat n ≠ [] := by
  simp [jsonNat, Nat.toDigits_ne_nil]

/-- A positive number is not written with a zero in front. -/
theorem exists_jsonNat_cons {n : ℕ} (hn : 0 < n) :
    ∃ c t, jsonNat n = c :: t ∧ c ≠ 48 := by
  induction n using Nat.strongRecOn with
  | ind n ih =>
      rcases Nat.lt_or_ge n 10 with hlt | hge
      · have hchar : ∀ m < 10, 0 < m → ord (Nat.digitChar m) ≠ 48 := by decide
        refine ⟨ord n.digitChar, [], ?_, hchar n hlt hn⟩
        rw [jsonNat, Nat.toDigits_of_lt_base hlt]
        rfl
      · obtain ⟨c, t, ht, hc⟩ := ih (n / 10) (by omega) (by omega)
        refine ⟨c, t ++ [ord (n % 10).digitChar], ?_, hc⟩
        rw [jsonNat, Nat.toDigits_of_base_le (by decide) hge, List.map_append]
        rw [jsonNat] at ht
        rw [ht]
        rfl

end PromptCode.Py
