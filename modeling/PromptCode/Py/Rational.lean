import Mathlib.Algebra.Order.Floor.Ring
import Mathlib.Data.Rat.Floor
import Mathlib.Tactic.Linarith
import Mathlib.Tactic.Positivity

/-!
# Rounding of exact numbers

`round(x, digits)` where `x` is exact: the nearest decimal, a tie to the even one.
-/

namespace PromptCode.Py

/-- The nearest integer, a tie to the even one. -/
def roundHalfEven (x : ℚ) : ℤ :=
  if Int.fract x < 1 / 2 ∨ (Int.fract x = 1 / 2 ∧ ⌊x⌋ % 2 = 0) then ⌊x⌋ else ⌊x⌋ + 1

theorem floor_le_roundHalfEven (x : ℚ) : ⌊x⌋ ≤ roundHalfEven x := by
  unfold roundHalfEven
  split_ifs <;> omega

theorem roundHalfEven_le (x : ℚ) : roundHalfEven x ≤ ⌊x⌋ + 1 := by
  unfold roundHalfEven
  split_ifs <;> omega

theorem roundHalfEven_mono {x y : ℚ} (h : x ≤ y) : roundHalfEven x ≤ roundHalfEven y := by
  rcases (Int.floor_le_floor h).lt_or_eq with hlt | heq
  · exact (roundHalfEven_le x).trans ((Int.add_one_le_of_lt hlt).trans (floor_le_roundHalfEven y))
  · have hfract : Int.fract x ≤ Int.fract y := by
      unfold Int.fract
      rw [heq]
      exact sub_le_sub_right h _
    by_cases hx : Int.fract x < 1 / 2 ∨ (Int.fract x = 1 / 2 ∧ ⌊x⌋ % 2 = 0)
    · rw [roundHalfEven, if_pos hx, heq]
      exact floor_le_roundHalfEven y
    · have hy : ¬ (Int.fract y < 1 / 2 ∨ (Int.fract y = 1 / 2 ∧ ⌊y⌋ % 2 = 0)) := by
        rintro (hlow | ⟨htie, heven⟩)
        · exact hx (Or.inl (hfract.trans_lt hlow))
        · rcases (hfract.trans_eq htie).lt_or_eq with hlow | hsame
          · exact hx (Or.inl hlow)
          · exact hx (Or.inr ⟨hsame, by rwa [heq]⟩)
      rw [roundHalfEven, if_neg hx, roundHalfEven, if_neg hy, heq]

theorem roundHalfEven_intCast (n : ℤ) : roundHalfEven n = n := by
  unfold roundHalfEven
  rw [Int.fract_intCast, Int.floor_intCast, if_pos (Or.inl (by norm_num))]

/-- `round(x, digits)` -/
def roundTo (digits : ℕ) (x : ℚ) : ℚ := roundHalfEven (x * 10 ^ digits) / 10 ^ digits

theorem roundTo_mono (digits : ℕ) {x y : ℚ} (h : x ≤ y) : roundTo digits x ≤ roundTo digits y := by
  unfold roundTo
  gcongr
  exact roundHalfEven_mono (mul_le_mul_of_nonneg_right h (by positivity))

theorem roundTo_intCast (digits : ℕ) (n : ℤ) : roundTo digits n = n := by
  have hcast : (n : ℚ) * 10 ^ digits = ((n * 10 ^ digits : ℤ) : ℚ) := by push_cast; rfl
  rw [roundTo, hcast, roundHalfEven_intCast]
  push_cast
  rw [mul_div_assoc, div_self (by positivity), mul_one]

theorem roundTo_roundTo (digits : ℕ) (x : ℚ) :
    roundTo digits (roundTo digits x) = roundTo digits x := by
  have hpow : (10 : ℚ) ^ digits ≠ 0 := by positivity
  conv_lhs => rw [roundTo]
  rw [roundTo, div_mul_cancel₀ _ hpow, roundHalfEven_intCast]

/-- A number and the integer that it rounds to are at most half apart. -/
theorem abs_sub_roundHalfEven (x : ℚ) : |x - roundHalfEven x| ≤ 1 / 2 := by
  have hfloor := Int.floor_add_fract x
  have hnonneg := Int.fract_nonneg x
  have hlt := Int.fract_lt_one x
  unfold roundHalfEven
  split_ifs with hlow
  · have hhalf : Int.fract x ≤ 1 / 2 := by
      rcases hlow with hlow | ⟨htie, -⟩
      · exact hlow.le
      · exact htie.le
    rw [abs_le]
    constructor <;> linarith
  · have hhalf : 1 / 2 ≤ Int.fract x := by
      by_contra hnot
      exact hlow (Or.inl (not_le.mp hnot))
    push_cast
    rw [abs_le]
    constructor <;> linarith

/-- Rounding does not leave an interval with integer ends. -/
theorem roundTo_mem_Icc (digits : ℕ) {x : ℚ} {a b : ℤ} (ha : a ≤ x) (hb : x ≤ b) :
    a ≤ roundTo digits x ∧ roundTo digits x ≤ b := by
  have hlow := roundTo_mono digits ha
  have hhigh := roundTo_mono digits hb
  rw [roundTo_intCast] at hlow hhigh
  exact ⟨hlow, hhigh⟩

end PromptCode.Py
