import PromptCode.Py.UnitFloat

/-!
# `difflib.SequenceMatcher`

The similarity of two texts: twice the number of characters in matching blocks over the
number of characters.  A block is a longest common piece, extended to both sides, and the
blocks to its left and right are found in the same way.
-/

namespace PromptCode.Py

/-- A common piece of two texts: where it starts in each, and its length. -/
structure MatchBlock where
  i : ℕ
  j : ℕ
  size : ℕ
  deriving DecidableEq

namespace Difflib

/-- The characters of a long second text that are left out of its index, since they make up
more than a hundredth of it. -/
def popular (b : Str) (c : CodePoint) : Bool :=
  200 ≤ b.length && b.length / 100 + 1 < b.count c

section

variable (junk : CodePoint → Bool)

/-- The lengths of the common pieces that end with the character `c` of the first text, by
the place in the second. -/
def nextRow (c : CodePoint) (b : Str) (row : List ℕ) : List ℕ :=
  List.zipWith (fun d k => if d = c ∧ junk d = false then k + 1 else 0) b (0 :: row)

/-- One round of the search: a strictly longer piece replaces the best one. -/
def bestInRow (i : ℕ) (row : List ℕ) (best : MatchBlock) : MatchBlock :=
  row.zipIdx.foldl (fun best k =>
    if best.size < k.1 then ⟨i + 1 - k.1, k.2 + 1 - k.1, k.1⟩ else best) best

def scanRows (b : Str) : ℕ → Str → List ℕ → MatchBlock → MatchBlock
  | _, [], _, best => best
  | i, c :: a, row, best =>
      scanRows b (i + 1) a (nextRow junk c b row) (bestInRow i (nextRow junk c b row) best)

/-- The piece grows to the left while the characters agree. -/
def extendLeft (a b : Str) : ℕ → ℕ → ℕ → MatchBlock
  | i + 1, j + 1, k =>
      if a[i]? = b[j]? then extendLeft a b i j (k + 1) else ⟨i + 1, j + 1, k⟩
  | i, j, k => ⟨i, j, k⟩

/-- How far two texts agree. -/
def agreement : Str → Str → ℕ
  | c :: a, d :: b => if c = d then agreement a b + 1 else 0
  | _, _ => 0

/-- The piece grows to the right while the characters agree. -/
def extendRight (a b : Str) (m : MatchBlock) : MatchBlock :=
  { m with size := m.size + agreement (a.drop (m.i + m.size)) (b.drop (m.j + m.size)) }

/-- `find_longest_match` -/
def findLongestMatch (a b : Str) : MatchBlock :=
  let best := scanRows junk b 0 a (List.replicate b.length 0) ⟨0, 0, 0⟩
  extendRight a b (extendLeft a b best.i best.j best.size)

/-- The characters in matching blocks; each round finds one block. -/
def matched : ℕ → Str → Str → ℕ
  | 0, _, _ => 0
  | n + 1, a, b =>
      let m := findLongestMatch junk a b
      if m.size = 0 then 0
      else
        m.size + matched n (a.take m.i) (b.take m.j) +
          matched n (a.drop (m.i + m.size)) (b.drop (m.j + m.size))

end

/-- `SequenceMatcher(None, a, b).ratio()` -/
def ratio (a b : Str) : PyFloat :=
  if a.length + b.length = 0 then .one
  else .trueDiv (2 * matched (popular b) (a.length + 1) a b) (a.length + b.length)

/-! ## The ratio is a score -/

/-- The block lies within both texts. -/
def Within (a b : Str) (m : MatchBlock) : Prop :=
  m.i + m.size ≤ a.length ∧ m.j + m.size ≤ b.length

variable {junk : CodePoint → Bool}

/-- No piece reaches over the beginning of a text. -/
def RowBound (i : ℕ) (row : List ℕ) : Prop :=
  ∀ j k, row[j]? = some k → k ≤ i ∧ k ≤ j + 1

theorem rowBound_replicate (n : ℕ) : RowBound 0 (List.replicate n 0) := by
  intro j k hk
  have hzero := List.eq_of_mem_replicate (List.mem_of_getElem? hk)
  omega

theorem rowBound_nextRow {i : ℕ} {row : List ℕ} (h : RowBound i row) (c : CodePoint)
    (b : Str) : RowBound (i + 1) (nextRow junk c b row) := by
  intro j k hk
  rw [nextRow, List.getElem?_zipWith_eq_some] at hk
  obtain ⟨d, p, -, hp, rfl⟩ := hk
  split_ifs
  · rcases j with _ | j
    · rw [List.getElem?_cons_zero, Option.some.injEq] at hp
      omega
    · have hprev := h j p hp
      omega
  · omega

theorem within_bestInRow {a b : Str} {i : ℕ} {row : List ℕ} {best : MatchBlock}
    (hrow : RowBound (i + 1) row) (hi : i < a.length) (hlen : row.length ≤ b.length)
    (hbest : Within a b best) : Within a b (bestInRow i row best) := by
  have hfold : ∀ l : List (ℕ × ℕ), (∀ k ∈ l, k.1 ≤ i + 1 ∧ k.1 ≤ k.2 + 1 ∧ k.2 < b.length) →
      ∀ best, Within a b best → Within a b (l.foldl (fun best k =>
        if best.size < k.1 then ⟨i + 1 - k.1, k.2 + 1 - k.1, k.1⟩ else best) best) := by
    intro l
    induction l with
    | nil => exact fun _ _ hbest => hbest
    | cons k l ih =>
        intro hl best hbest
        obtain ⟨hk, hk', hk''⟩ := hl k (by simp)
        apply ih fun k hk => hl k (by simp [hk])
        dsimp only
        split_ifs
        · constructor <;> dsimp only <;> omega
        · exact hbest
  apply hfold _ _ best hbest
  rintro ⟨k, j⟩ hk
  have hget := List.mk_mem_zipIdx_iff_getElem?.mp hk
  obtain ⟨hle, hle'⟩ := hrow j k hget
  obtain ⟨hj, -⟩ := List.getElem?_eq_some_iff.mp hget
  exact ⟨hle, hle', hj.trans_le hlen⟩

theorem length_nextRow_le (c : CodePoint) (b : Str) (row : List ℕ) :
    (nextRow junk c b row).length ≤ b.length := by
  simp [nextRow]

theorem within_scanRows {a b : Str} (before rest : Str) (ha : a = before ++ rest)
    {row : List ℕ} {best : MatchBlock} (hrow : RowBound before.length row)
    (hbest : Within a b best) :
    Within a b (scanRows junk b before.length rest row best) := by
  induction rest generalizing before row best with
  | nil => exact hbest
  | cons c rest ih =>
      have hnext : RowBound (before.length + 1) (nextRow junk c b row) :=
        rowBound_nextRow hrow c b
      have hlt : before.length < a.length := by
        rw [ha, List.length_append, List.length_cons]
        omega
      have hrest := ih (before ++ [c]) (by simp [ha])
        (by simpa using hnext)
        (within_bestInRow hnext hlt (length_nextRow_le c b row) hbest)
      rw [List.length_append, List.length_singleton] at hrest
      exact hrest

theorem within_extendLeft {a b : Str} {i j k : ℕ} (h : Within a b ⟨i, j, k⟩) :
    Within a b (extendLeft a b i j k) := by
  induction i generalizing j k with
  | zero =>
      unfold extendLeft
      exact h
  | succ i ih =>
      rcases j with _ | j
      · unfold extendLeft
        exact h
      · rw [extendLeft]
        split_ifs
        · apply ih
          obtain ⟨hi, hj⟩ := h
          constructor <;> dsimp only at * <;> omega
        · exact h

theorem agreement_le (a b : Str) : agreement a b ≤ a.length ∧ agreement a b ≤ b.length := by
  induction a generalizing b with
  | nil => simp [agreement]
  | cons c a ih =>
      rcases b with _ | ⟨d, b⟩
      · simp [agreement]
      · rw [agreement]
        have hrest := ih b
        split_ifs
        · simp only [List.length_cons]
          omega
        · omega

variable (junk) in
theorem within_findLongestMatch (a b : Str) : Within a b (findLongestMatch junk a b) := by
  have hscan : Within a b
      (scanRows junk b 0 a (List.replicate b.length 0) ⟨0, 0, 0⟩) :=
    within_scanRows [] a rfl (rowBound_replicate _) ⟨Nat.zero_le _, Nat.zero_le _⟩
  obtain ⟨hi, hj⟩ := within_extendLeft hscan
  unfold findLongestMatch extendRight
  dsimp only
  generalize extendLeft a b _ _ _ = m at hi hj ⊢
  obtain ⟨hle, hle'⟩ := agreement_le (a.drop (m.i + m.size)) (b.drop (m.j + m.size))
  rw [List.length_drop] at hle hle'
  constructor <;> dsimp only <;> omega

variable (junk) in
/-- The blocks do not overlap in either text. -/
theorem matched_le (n : ℕ) (a b : Str) :
    matched junk n a b ≤ a.length ∧ matched junk n a b ≤ b.length := by
  induction n generalizing a b with
  | zero => simp [matched]
  | succ n ih =>
      obtain ⟨hi, hj⟩ := within_findLongestMatch junk a b
      rw [matched]
      generalize findLongestMatch junk a b = m at hi hj ⊢
      split_ifs
      · simp
      · have hleft := ih (a.take m.i) (b.take m.j)
        have hright := ih (a.drop (m.i + m.size)) (b.drop (m.j + m.size))
        rw [List.length_take, List.length_take] at hleft
        rw [List.length_drop, List.length_drop] at hright
        omega

theorem isUnit_ratio (a b : Str) : (ratio a b).IsUnit := by
  obtain ⟨hle, hle'⟩ := matched_le (popular b) (a.length + 1) a b
  unfold ratio
  split_ifs with hempty
  · exact PyFloat.isUnit_one
  · exact PyFloat.isUnit_trueDiv (by omega) (by omega)

example : matched (popular (lit "a volatile thread")) 9 (lit "a thread")
    (lit "a volatile thread") = 8 := by
  decide +kernel

end Difflib

end PromptCode.Py
