import PromptCode.Py.Float

/-!
# The text of a float

`repr` writes the shortest decimal digits that are rounded back to the double, in
fixed or in exponent notation.  Reading such a text gives the double back.
-/

namespace PromptCode.Py

namespace Double

/-! ## The shortest digits -/

/-- The number of digits in front of the decimal point, negative if zeros follow the
point.  No double is below `10 ^ -330`. -/
def decimalPoint (x : Double) : ℤ :=
  (jsonNat (x.units * 10 ^ 330 / unit)).length - 330

/-- The two decimals with `n` digits next to a double, the nearer one first. -/
def decimalsAround (x : Double) (n : ℕ) : List (ℕ × ℤ) :=
  let e := x.decimalPoint - n
  let a := x.units * 10 ^ (-e).toNat
  let b := unit * 10 ^ e.toNat
  let near := roundDiv a b
  let other := if near = a / b then a / b + 1 else a / b
  [(near, e), (other, e)]

/-- The shortest decimal that is rounded to the double, the exact one if none has at
most 17 digits. -/
def shortest (x : Double) : ℕ × ℤ :=
  (((List.range 17).flatMap fun n => x.decimalsAround (n + 1)).find? fun d =>
    ofDecimal x.neg d.1 d.2 = some x).getD (x.units * 5 ^ 1074, -1074)

theorem ofDecimal_exact (x : Double) :
    ofDecimal x.neg (x.units * 5 ^ 1074) (-1074) = some x := by
  have hexact : ∀ k : ℕ, unit = 2 ^ k →
      ofDecimal x.neg (x.units * 5 ^ k) (-(k : ℤ)) = some x := by
    intro k hk
    have hten : (10 : ℕ) ^ k = 5 ^ k * 2 ^ k := by
      rw [← mul_pow]
      norm_num
    rw [← nearest_units x]
    apply nearest_congr x.neg (by positivity) one_pos
    rw [neg_neg, Int.toNat_natCast, Int.toNat_neg_natCast, hten, hk]
    ring
  exact hexact 1074 rfl

theorem ofDecimal_shortest (x : Double) :
    ofDecimal x.neg x.shortest.1 x.shortest.2 = some x := by
  unfold shortest
  rcases hfind : List.find? _ _ with _ | d
  · exact x.ofDecimal_exact
  · have := List.find?_some hfind
    exact of_decide_eq_true this

/-- Leave out the zeros at the end; each round takes one. -/
def stripZeros : ℕ → ℕ × ℤ → ℕ × ℤ
  | 0, d => d
  | k + 1, d =>
      if d.1 % 10 = 0 ∧ d.1 ≠ 0 then stripZeros k (d.1 / 10, d.2 + 1) else d

theorem ofDecimal_stripZeros (neg : Bool) (k : ℕ) (d : ℕ × ℤ) :
    ofDecimal neg (stripZeros k d).1 (stripZeros k d).2 = ofDecimal neg d.1 d.2 := by
  induction k generalizing d with
  | zero => rfl
  | succ k ih =>
      unfold stripZeros
      split_ifs with hd
      · rw [ih]
        have hten : d.1 = d.1 / 10 * 10 ^ 1 := by omega
        conv_rhs => rw [hten, ofDecimal_mul_pow]
        rfl
      · rfl

def digits (x : Double) : ℕ × ℤ :=
  let d := x.shortest
  stripZeros (jsonNat d.1).length d

theorem ofDecimal_digits (x : Double) :
    ofDecimal x.neg x.digits.1 x.digits.2 = some x :=
  (ofDecimal_stripZeros _ _ _).trans x.ofDecimal_shortest

end Double

/-! ## Notation -/

/-- A number as it is written: the digits in front of the point, those after it, and
the exponent. -/
structure Notation where
  whole : Str
  fraction : Str
  exponent : Option ℤ
  deriving DecidableEq

namespace Notation

/-- The double that a written number stands for. -/
def value (neg : Bool) (t : Notation) : Option Double :=
  Double.ofDecimal neg (digitsValue (t.whole ++ t.fraction))
    (t.exponent.getD 0 - t.fraction.length)

/-- At least two digits. -/
def exponentDigits (n : ℕ) : Str :=
  if (jsonNat n).length < 2 then 48 :: jsonNat n else jsonNat n

def exponentText (e : ℤ) : Str :=
  101 :: (if e < 0 then 45 else 43) :: exponentDigits e.natAbs

def text (t : Notation) : Str :=
  t.whole ++ (if t.fraction = [] then [] else dot :: t.fraction) ++
    (t.exponent.elim [] exponentText)

/-- No zero stands in front of other digits. -/
def WholeDigits (s : Str) : Prop :=
  s = [48] ∨ ((∀ c ∈ s, isDigit c = true) ∧ ∃ c t, s = c :: t ∧ c ≠ 48)

structure Valid (t : Notation) : Prop where
  whole : WholeDigits t.whole
  fraction : ∀ c ∈ t.fraction, isDigit c = true

theorem wholeDigits_jsonNat (n : ℕ) : WholeDigits (jsonNat n) := by
  rcases Nat.eq_zero_or_pos n with rfl | hn
  · exact Or.inl (by decide)
  · exact Or.inr ⟨fun c hc => isDigit_of_mem_jsonNat hc, exists_jsonNat_cons hn⟩

theorem isDigit_of_mem_exponentDigits {n : ℕ} {c : CodePoint}
    (hc : c ∈ exponentDigits n) : isDigit c = true := by
  unfold exponentDigits at hc
  split_ifs at hc with hshort
  · rcases List.mem_cons.mp hc with rfl | hc
    · decide
    · exact isDigit_of_mem_jsonNat hc
  · exact isDigit_of_mem_jsonNat hc

theorem exponentDigits_ne_nil (n : ℕ) : exponentDigits n ≠ [] := by
  unfold exponentDigits
  split_ifs
  · simp
  · exact jsonNat_ne_nil n

theorem digitsValue_exponentDigits (n : ℕ) : digitsValue (exponentDigits n) = n := by
  unfold exponentDigits
  split_ifs
  · rw [← List.singleton_append, digitsValue_append, digitsValue_jsonNat]
    simp [digitsValue]
  · exact digitsValue_jsonNat n

theorem isDigit_of_mem_zeros {n : ℕ} {c : CodePoint} (hc : c ∈ zeros n) :
    isDigit c = true := by
  rw [List.eq_of_mem_replicate hc]
  decide

end Notation

/-- `d * 10 ^ e`, in the notation that `repr` chooses. -/
def reprNotation (d : ℕ) (e : ℤ) : Notation :=
  let ds := jsonNat d
  let point := ds.length + e
  if -4 < point ∧ point ≤ 16 then
    if point ≤ 0 then ⟨zeros 1, zeros (-point).toNat ++ ds, none⟩
    else if 0 ≤ e then ⟨ds ++ zeros e.toNat, zeros 1, none⟩
    else ⟨ds.take point.toNat, ds.drop point.toNat, none⟩
  else ⟨ds.take 1, ds.drop 1, some (point - 1)⟩

theorem value_reprNotation (neg : Bool) (d : ℕ) (e : ℤ) :
    (reprNotation d e).value neg = Double.ofDecimal neg d e := by
  have hlen : 0 < (jsonNat d).length := List.length_pos_iff.mpr (jsonNat_ne_nil d)
  unfold reprNotation Notation.value
  dsimp only
  split_ifs with hfixed hsmall hlarge
  · rw [digitsValue_append, digitsValue_append, digitsValue_zeros, digitsValue_zeros,
      digitsValue_jsonNat]
    simp only [zero_mul, zero_add, Option.getD_none, List.length_append, zeros,
      List.length_replicate]
    congr 1
    omega
  · rw [digitsValue_append, digitsValue_append, digitsValue_zeros, digitsValue_zeros,
      digitsValue_jsonNat]
    simp only [add_zero, zeros, List.length_replicate, Option.getD_none, mul_assoc,
      ← pow_add]
    rw [Double.ofDecimal_mul_pow]
    congr 1
    omega
  · rw [List.take_append_drop, digitsValue_jsonNat]
    simp only [Option.getD_none, List.length_drop]
    congr 1
    omega
  · rw [List.take_append_drop, digitsValue_jsonNat]
    simp only [Option.getD_some, List.length_drop]
    congr 1
    omega

theorem valid_reprNotation {d : ℕ} (hd : 0 < d) (e : ℤ) : (reprNotation d e).Valid := by
  have hdigit : ∀ c ∈ jsonNat d, isDigit c = true := fun c hc =>
    isDigit_of_mem_jsonNat hc
  obtain ⟨c, t, ht, hc⟩ := exists_jsonNat_cons hd
  have htake (n : ℕ) (hn : 0 < n) : Notation.WholeDigits ((jsonNat d).take n) := by
    refine Or.inr ⟨fun x hx => hdigit x (List.mem_of_mem_take hx), c, t.take (n - 1),
      ?_, hc⟩
    obtain ⟨m, rfl⟩ : ∃ m, n = m + 1 := ⟨n - 1, by omega⟩
    rw [ht, List.take_succ_cons, Nat.add_sub_cancel]
  unfold reprNotation
  dsimp only
  split_ifs with hfixed hsmall hlarge
  · refine ⟨Or.inl rfl, fun x hx => ?_⟩
    rcases List.mem_append.mp hx with hx | hx
    · exact Notation.isDigit_of_mem_zeros hx
    · exact hdigit x hx
  · refine ⟨Or.inr ⟨fun x hx => ?_, c, t ++ zeros e.toNat, by rw [ht]; rfl, hc⟩,
      fun x hx => Notation.isDigit_of_mem_zeros hx⟩
    rcases List.mem_append.mp hx with hx | hx
    · exact hdigit x hx
    · exact Notation.isDigit_of_mem_zeros hx
  · exact ⟨htake _ (by omega), fun x hx => hdigit x (List.mem_of_mem_drop hx)⟩
  · exact ⟨htake 1 one_pos, fun x hx => hdigit x (List.mem_of_mem_drop hx)⟩

/-- A text written by `repr` is not that of an integer. -/
theorem reprNotation_isFloat (d : ℕ) (e : ℤ) :
    (reprNotation d e).fraction ≠ [] ∨ (reprNotation d e).exponent ≠ none := by
  unfold reprNotation
  dsimp only
  split_ifs with hfixed hsmall hlarge
  · exact Or.inl (by simp [jsonNat_ne_nil])
  · exact Or.inl (by simp [zeros])
  · refine Or.inl fun h => ?_
    rw [List.drop_eq_nil_iff] at h
    omega
  · exact Or.inr (by simp)

/-- A double as `repr` writes it, apart from its sign. -/
def Double.written (x : Double) : Notation :=
  if x.mant = 0 then ⟨zeros 1, zeros 1, none⟩
  else reprNotation x.digits.1 x.digits.2

/-- `repr` of a double. -/
def Double.repr (x : Double) : Str := (if x.neg then [45] else []) ++ x.written.text

theorem Double.mant_of_nearest_zero {neg : Bool} {b : ℕ} {x : Double}
    (h : nearest neg 0 b = some x) : x.mant = 0 := by
  have hround : roundDiv 0 (b * 2 ^ excess (0 / b)) = 0 := by
    simp [roundDiv]
  unfold nearest at h
  dsimp only at h
  split_ifs at h with hfit hcarry
  · obtain rfl := Option.some.inj h
    exact hround
  · refine absurd ⟨by omega, Or.inl ?_, ?_⟩ hfit
    · rw [Nat.zero_div]
      decide
    · rw [Nat.zero_div]
      decide

theorem Double.value_written (x : Double) : x.written.value x.neg = some x := by
  unfold written
  split_ifs with hzero
  · have hunits : x.units = 0 := by simp [units, hzero]
    rw [← x.nearest_units, hunits, Notation.value, digitsValue_append,
      digitsValue_zeros, zero_mul, zero_add, ofDecimal, zero_mul, zero_mul]
    exact nearest_congr x.neg (Nat.pow_pos (by norm_num)) one_pos (by simp)
  · exact (value_reprNotation _ _ _).trans x.ofDecimal_digits

theorem Double.valid_written (x : Double) : x.written.Valid := by
  unfold written
  split_ifs with hzero
  · exact ⟨Or.inl rfl, fun c hc => Notation.isDigit_of_mem_zeros hc⟩
  · refine valid_reprNotation (Nat.pos_of_ne_zero fun hd => hzero ?_) _
    have hdigits := x.ofDecimal_digits
    rw [hd, ofDecimal, zero_mul, zero_mul] at hdigits
    exact mant_of_nearest_zero hdigits

/-- The text of a float is not that of an integer. -/
theorem Double.written_isFloat (x : Double) :
    ¬ (x.written.fraction = [] ∧ x.written.exponent = none) := by
  rw [not_and_or]
  unfold written
  split_ifs with hzero
  · exact Or.inl (by simp [zeros])
  · exact reprNotation_isFloat _ _

/-! ## Reading -/

def readWhole : Str → Option (Str × Str)
  | [] => none
  | c :: t =>
      if c = 48 then some ([48], t)
      else if isDigit c then
        some ((c :: t).takeWhile isDigit, (c :: t).dropWhile isDigit)
      else none

def readFraction : Str → Str × Str
  | [] => ([], [])
  | c :: t =>
      if c = dot ∧ t.takeWhile isDigit ≠ [] then
        (t.takeWhile isDigit, t.dropWhile isDigit)
      else ([], c :: t)

def readSign : Str → Bool × Str
  | [] => (false, [])
  | c :: t => if c = 45 then (true, t) else if c = 43 then (false, t) else (false, c :: t)

def readExponent : Str → Option ℤ × Str
  | [] => (none, [])
  | c :: t =>
      let (neg, u) := readSign t
      if (c = 101 ∨ c = 69) ∧ u.takeWhile isDigit ≠ [] then
        let n := digitsValue (u.takeWhile isDigit)
        (some (if neg then -n else n), u.dropWhile isDigit)
      else (none, c :: t)

def readMinus : Str → Bool × Str
  | [] => (false, [])
  | c :: t => if c = 45 then (true, t) else (false, c :: t)

/-- The number at the front of a text, its sign, and what follows. -/
def readNotation (s : Str) : Option ((Bool × Notation) × Str) :=
  let (neg, t) := readMinus s
  (readWhole t).map fun w =>
    let (fraction, u) := readFraction w.2
    let (exponent, v) := readExponent u
    ((neg, ⟨w.1, fraction, exponent⟩), v)

/-- The text does not continue a number. -/
def EndsNumber (rest : Str) : Prop :=
  ∀ c, rest.head? = some c → isDigit c = false ∧ c ≠ dot ∧ c ≠ 101 ∧ c ≠ 69

theorem takeWhile_digits {s rest : Str} (hs : ∀ c ∈ s, isDigit c = true)
    (hrest : ∀ c, rest.head? = some c → isDigit c = false) :
    (s ++ rest).takeWhile isDigit = s ∧ (s ++ rest).dropWhile isDigit = rest := by
  have hnil : rest.takeWhile isDigit = [] ∧ rest.dropWhile isDigit = rest := by
    rcases rest with _ | ⟨c, rest⟩
    · exact ⟨rfl, rfl⟩
    · have hc := hrest c rfl
      simp [hc]
  rw [List.takeWhile_append_of_pos hs, List.dropWhile_append_of_pos hs, hnil.1, hnil.2]
  simp

theorem readWhole_append {s rest : Str} (hs : Notation.WholeDigits s)
    (hrest : ∀ c, rest.head? = some c → isDigit c = false) :
    readWhole (s ++ rest) = some (s, rest) := by
  rcases hs with rfl | ⟨hdigits, c, t, rfl, hc⟩
  · rfl
  · obtain ⟨htake, hdrop⟩ := takeWhile_digits hdigits hrest
    rw [List.cons_append] at htake hdrop ⊢
    rw [readWhole, if_neg hc, if_pos (hdigits c (by simp)), htake, hdrop]

theorem readFraction_append {s rest : Str} (hs : ∀ c ∈ s, isDigit c = true)
    (hrest : ∀ c, rest.head? = some c → isDigit c = false ∧ c ≠ dot) :
    readFraction ((if s = [] then [] else dot :: s) ++ rest) = (s, rest) := by
  split_ifs with hnil
  · subst hnil
    rcases rest with _ | ⟨c, rest⟩
    · rfl
    · rw [List.nil_append, readFraction, if_neg fun h => (hrest c rfl).2 h.1]
  · obtain ⟨htake, hdrop⟩ := takeWhile_digits hs fun c hc => (hrest c hc).1
    rw [List.cons_append, readFraction, htake, hdrop, if_pos ⟨rfl, hnil⟩]

theorem readExponent_text (e : ℤ) {rest : Str}
    (hrest : ∀ c, rest.head? = some c → isDigit c = false) :
    readExponent (Notation.exponentText e ++ rest) = (some e, rest) := by
  obtain ⟨htake, hdrop⟩ := takeWhile_digits
    (fun c hc => Notation.isDigit_of_mem_exponentDigits hc) hrest (s := Notation.exponentDigits e.natAbs)
  have hsign : readSign ((if e < 0 then 45 else 43) ::
      (Notation.exponentDigits e.natAbs ++ rest)) =
      (decide (e < 0), Notation.exponentDigits e.natAbs ++ rest) := by
    unfold readSign
    by_cases hneg : e < 0
    · simp [hneg]
    · simp [hneg]
  rw [Notation.exponentText, List.cons_append, List.cons_append, readExponent, hsign]
  simp only [true_or, true_and, htake, hdrop, Notation.digitsValue_exponentDigits]
  rw [if_pos (Notation.exponentDigits_ne_nil _)]
  congr 2
  by_cases hneg : e < 0
  · simp only [hneg, decide_true, if_true]
    omega
  · simp only [hneg, decide_false, Bool.false_eq_true, if_false]
    omega

theorem readExponent_append (e : Option ℤ) {rest : Str} (hrest : EndsNumber rest) :
    readExponent (e.elim [] Notation.exponentText ++ rest) = (e, rest) := by
  rcases e with _ | e
  · rcases rest with _ | ⟨c, rest⟩
    · rfl
    · obtain ⟨-, -, he, hE⟩ := hrest c rfl
      rw [Option.elim_none, List.nil_append, readExponent]
      dsimp only
      rw [if_neg fun h => h.1.elim he hE]
  · exact readExponent_text e fun c hc => (hrest c hc).1

/-- A number is read back up to the first character that does not continue it. -/
theorem readNotation_text (neg : Bool) {t : Notation} (ht : t.Valid) {rest : Str}
    (hrest : EndsNumber rest) :
    readNotation ((if neg then [45] else []) ++ (t.text ++ rest)) =
      some ((neg, t), rest) := by
  have hexp : ∀ c, (t.exponent.elim [] Notation.exponentText ++ rest).head? = some c →
      isDigit c = false ∧ c ≠ dot := by
    intro c hc
    rcases hE : t.exponent with _ | e
    · rw [hE] at hc
      exact ⟨(hrest c hc).1, (hrest c hc).2.1⟩
    · rw [hE] at hc
      simp only [Option.elim_some, Notation.exponentText, List.cons_append,
        List.head?_cons, Option.some.injEq] at hc
      rw [← hc]
      decide
  have hfrac : ∀ c, ((if t.fraction = [] then [] else dot :: t.fraction) ++
      (t.exponent.elim [] Notation.exponentText ++ rest)).head? = some c →
      isDigit c = false := by
    intro c hc
    split_ifs at hc with hnil
    · exact (hexp c hc).1
    · obtain rfl := Option.some.inj hc
      decide
  have hminus : readMinus ((if neg then [45] else []) ++ (t.text ++ rest)) =
      (neg, t.text ++ rest) := by
    rcases neg with _ | _
    · obtain ⟨c, u, hw, hc⟩ : ∃ c u, t.whole = c :: u ∧ c ≠ 45 := by
        rcases ht.whole with hw | ⟨hdigits, c, u, hw, -⟩
        · exact ⟨48, [], hw, by decide⟩
        · refine ⟨c, u, hw, ?_⟩
          rintro rfl
          exact absurd (hdigits 45 (by simp [hw])) (by decide)
      simp [readMinus, Notation.text, hw, hc]
    · rfl
  unfold readNotation
  simp only [hminus]
  rw [Notation.text, List.append_assoc, List.append_assoc,
    readWhole_append ht.whole hfrac]
  simp only [Option.map_some, readFraction_append ht.fraction hexp,
    readExponent_append t.exponent hrest]

end PromptCode.Py
