import Mathlib

/-!
# Python strings

A Python `str` is a list of code points, lone surrogates included.  This file
gives the string operations that the path policies are written with: `split`
and `join` on a separator, the strips, the substring test and `lower`.
-/

namespace PromptCode.Py

/-- One Unicode code point.  Surrogates are allowed, as in a Python `str`. -/
abbrev CodePoint := Fin 0x110000

abbrev Str := List CodePoint

/-! The instances that literals and membership tests need, by one name everywhere. -/

instance instNeZeroCodePoint : NeZero 0x110000 := ⟨by decide⟩

instance instLawfulBEqCodePoint : LawfulBEq CodePoint := inferInstance

instance instLawfulBEqStr : LawfulBEq Str := inferInstance

/-- The code point of a Lean character. -/
def ord (c : Char) : CodePoint :=
  ⟨c.toNat, by
    have hvalid := c.valid
    simp only [Char.toNat]
    rcases hvalid with h | h <;> omega⟩

/-- A string literal. -/
def lit (s : String) : Str := s.toList.map ord

theorem ord_injective : Function.Injective ord := by
  intro c d h
  have hval : (ord c).val = (ord d).val := by rw [h]
  exact Char.ext (UInt32.toNat_inj.mp hval)

theorem lit_inj {s t : String} : lit s = lit t ↔ s = t := by
  constructor
  · intro h
    apply String.toList_injective
    exact List.map_injective_iff.mpr ord_injective h
  · rintro rfl
    rfl

abbrev slash : CodePoint := 47
abbrev backslash : CodePoint := 92
abbrev dot : CodePoint := 46

def isSurrogate (c : CodePoint) : Bool := 0xd800 ≤ c.val && c.val ≤ 0xdfff

/-- A surrogate that stands for no byte of a file name: `os.fsencode` raises. -/
def isUnencodable (c : CodePoint) : Bool :=
  isSurrogate c && !(0xdc80 ≤ c.val && c.val ≤ 0xdcff)

/-- One lower-case hexadecimal digit. -/
def hexDigit (n : ℕ) : CodePoint :=
  if n % 16 < 10 then Fin.ofNat _ (48 + n % 16) else Fin.ofNat _ (87 + n % 16)

/-- `c in "0123456789abcdef"`. -/
def isHexDigit (c : CodePoint) : Bool := decide (c ∈ lit "0123456789abcdef")

theorem isHexDigit_hexDigit (n : ℕ) : isHexDigit (hexDigit n) = true := by
  have hlt : n % 16 < 16 := Nat.mod_lt _ (by decide)
  have hall : ∀ m < 16, isHexDigit
      (if m < 10 then Fin.ofNat _ (48 + m) else Fin.ofNat _ (87 + m)) = true := by
    decide
  exact hall _ hlt

/-! ## Splitting and joining -/

/-- `s.split(sep)` for a separator of one character. -/
def split (sep : CodePoint) (s : Str) : List Str := s.splitOn sep

/-- `sep.join(parts)` for a separator of one character. -/
def join (sep : CodePoint) (parts : List Str) : Str := [sep].intercalate parts

theorem split_ne_nil (sep : CodePoint) (s : Str) : split sep s ≠ [] :=
  List.splitOn_ne_nil sep s

theorem join_split (sep : CodePoint) (s : Str) : join sep (split sep s) = s :=
  List.intercalate_splitOn sep

theorem split_join {sep : CodePoint} {parts : List Str}
    (hsep : ∀ p ∈ parts, sep ∉ p) (hne : parts ≠ []) :
    split sep (join sep parts) = parts :=
  List.splitOn_intercalate sep hsep hne

@[simp] theorem join_singleton (sep : CodePoint) (p : Str) :
    join sep [p] = p := by
  simp [join]

theorem join_cons_cons (sep : CodePoint) (p q : Str) (rest : List Str) :
    join sep (p :: q :: rest) = p ++ sep :: join sep (q :: rest) := by
  simp [join, List.intercalate_cons_cons]

theorem join_cons_of_ne_nil (sep : CodePoint) (p : Str) {rest : List Str}
    (hne : rest ≠ []) :
    join sep (p :: rest) = p ++ sep :: join sep rest := by
  obtain ⟨q, tail, rfl⟩ := List.exists_cons_of_ne_nil hne
  exact join_cons_cons sep p q tail

theorem split_of_notMem {sep : CodePoint} {s : Str} (h : sep ∉ s) :
    split sep s = [s] :=
  List.splitOn_eq_singleton h

theorem split_append_cons {sep : CodePoint} {p : Str} (h : sep ∉ p) (s : Str) :
    split sep (p ++ sep :: s) = p :: split sep s :=
  List.splitOn_append_cons_self_of_not_mem h s

theorem split_append_cons_self (sep : CodePoint) (s t : Str) :
    split sep (s ++ sep :: t) = split sep s ++ split sep t :=
  List.splitOn_append_cons_self s t

/-- Every string is its first part, alone or followed by the separator. -/
theorem exists_first_part (sep : CodePoint) (s : Str) :
    ∃ p, sep ∉ p ∧ (s = p ∨ ∃ rest, s = p ++ sep :: rest) := by
  induction s with
  | nil => exact ⟨[], by simp, Or.inl rfl⟩
  | cons c s ih =>
      by_cases hc : c = sep
      · exact ⟨[], by simp, Or.inr ⟨s, by simp [hc]⟩⟩
      · obtain ⟨p, hp, hs⟩ := ih
        have hcp : sep ∉ c :: p := by
          simp [hp, Ne.symm hc]
        refine ⟨c :: p, hcp, ?_⟩
        rcases hs with rfl | ⟨rest, rfl⟩
        · exact Or.inl rfl
        · exact Or.inr ⟨rest, by simp⟩

/-- No part of a split holds the separator. -/
theorem notMem_of_mem_split {sep : CodePoint} {s p : Str}
    (hp : p ∈ split sep s) : sep ∉ p := by
  induction h : s.length using Nat.strong_induction_on generalizing s with
  | _ n ih =>
      obtain ⟨q, hq, rfl | ⟨rest, rfl⟩⟩ := exists_first_part sep s
      · rw [split_of_notMem hq, List.mem_singleton] at hp
        exact hp ▸ hq
      · rw [split_append_cons hq, List.mem_cons] at hp
        rcases hp with rfl | hp
        · exact hq
        · refine ih rest.length ?_ hp rfl
          subst h
          simp only [List.length_append, List.length_cons]
          omega

/-- Every part of a split is a piece of the string. -/
theorem isInfix_of_mem_split {sep : CodePoint} {s p : Str}
    (hp : p ∈ split sep s) : p <:+: s := by
  induction h : s.length using Nat.strong_induction_on generalizing s with
  | _ n ih =>
      obtain ⟨q, hq, rfl | ⟨rest, rfl⟩⟩ := exists_first_part sep s
      · rw [split_of_notMem hq, List.mem_singleton] at hp
        exact hp ▸ List.infix_refl _
      · rw [split_append_cons hq, List.mem_cons] at hp
        rcases hp with rfl | hp
        · exact (List.prefix_append _ _).isInfix
        · have hinfix : p <:+: rest := by
            refine ih rest.length ?_ hp rfl
            subst h
            simp only [List.length_append, List.length_cons]
            omega
          have hsuffix : rest <:+ q ++ sep :: rest :=
            ⟨q ++ [sep], by simp⟩
          exact hinfix.trans hsuffix.isInfix

/-! ## Strips -/

/-- `s.lstrip(chars)`. -/
def lstrip (p : CodePoint → Bool) (s : Str) : Str := s.dropWhile p

/-- `s.rstrip(chars)`. -/
def rstrip (p : CodePoint → Bool) (s : Str) : Str := s.rdropWhile p

/-- The characters `str.strip()` removes: those with `str.isspace()`. -/
def isSpace (c : CodePoint) : Bool :=
  (9 ≤ c.val && c.val ≤ 13) || (28 ≤ c.val && c.val ≤ 32) ||
    c.val == 0x85 || c.val == 0xa0 || c.val == 0x1680 ||
    (0x2000 ≤ c.val && c.val ≤ 0x200a) || c.val == 0x2028 ||
    c.val == 0x2029 || c.val == 0x202f || c.val == 0x205f || c.val == 0x3000

/-- `s.strip()`. -/
def strip (s : Str) : Str := rstrip isSpace (lstrip isSpace s)

theorem rstrip_append_cons {p : CodePoint → Bool} (s t : Str) {c : CodePoint}
    (hc : p c = false) :
    rstrip p (s ++ c :: t) = s ++ c :: rstrip p t := by
  induction t using List.reverseRecOn with
  | nil =>
      simp [rstrip, List.rdropWhile_concat_neg, hc]
  | append_singleton t d ih =>
      by_cases hd : p d = true
      · rw [show s ++ c :: (t ++ [d]) = (s ++ c :: t) ++ [d] by simp]
        simp only [rstrip] at ih ⊢
        rw [List.rdropWhile_concat_pos _ _ _ hd,
          List.rdropWhile_concat_pos _ _ _ hd]
        exact ih
      · rw [show s ++ c :: (t ++ [d]) = (s ++ c :: t) ++ [d] by simp]
        simp only [rstrip]
        rw [List.rdropWhile_concat_neg _ _ _ hd,
          List.rdropWhile_concat_neg _ _ _ hd]
        simp

theorem lstrip_append_cons {p : CodePoint → Bool} (s t : Str) {c : CodePoint}
    (hc : p c = false) :
    lstrip p (s ++ c :: t) = lstrip p s ++ c :: t := by
  induction s with
  | nil => simp [lstrip, hc]
  | cons d s ih =>
      simp only [lstrip, List.cons_append, List.dropWhile_cons] at ih ⊢
      split
      · exact ih
      · rfl

theorem mem_of_mem_lstrip {p : CodePoint → Bool} {s : Str} {c : CodePoint}
    (h : c ∈ lstrip p s) : c ∈ s :=
  (List.dropWhile_suffix p).subset h

theorem mem_of_mem_rstrip {p : CodePoint → Bool} {s : Str} {c : CodePoint}
    (h : c ∈ rstrip p s) : c ∈ s :=
  (List.rdropWhile_prefix p s).subset h

theorem strip_eq_self {s : Str} (h : ∀ c ∈ s, isSpace c = false) :
    strip s = s := by
  have hl : lstrip isSpace s = s := by
    cases s with
    | nil => rfl
    | cons c s => simp [lstrip, h c (by simp)]
  rw [strip, hl]
  induction s using List.reverseRecOn with
  | nil => rfl
  | append_singleton s c _ =>
      rw [rstrip, List.rdropWhile_concat_neg _ _ _ (by simp [h c (by simp)])]

/-! ## Substrings and case -/

/-- `sub in s`. -/
def contains (sub s : Str) : Bool := decide (sub <:+: s)

@[simp] theorem contains_eq_true_iff {sub s : Str} :
    contains sub s = true ↔ sub <:+: s := by
  simp [contains]

/-- `c.lower()` for one character.  Besides the ASCII letters only KELVIN SIGN
and the dotted capital I lower to a string with an ASCII letter in it.  Every
other character lowers to characters outside ASCII and is left as it is here:
the names it is compared with are ASCII. -/
def lowerChar (c : CodePoint) : Str :=
  if h : 65 ≤ c.val ∧ c.val ≤ 90 then [⟨c.val + 32, by omega⟩]
  else if c.val = 0x212a then [107]
  else if c.val = 0x130 then [105, 0x307]
  else [c]

/-- `s.lower()`. -/
def lower (s : Str) : Str := s.flatMap lowerChar

@[simp] theorem lower_nil : lower [] = [] := rfl

theorem lower_append (s t : Str) : lower (s ++ t) = lower s ++ lower t := by
  simp [lower]

theorem lower_cons (c : CodePoint) (s : Str) :
    lower (c :: s) = lowerChar c ++ lower s := rfl

theorem lowerChar_ne_nil (c : CodePoint) : lowerChar c ≠ [] := by
  unfold lowerChar
  split_ifs <;> simp

/-- A character below the capital letters is lowered from itself only. -/
theorem mem_lowerChar_of_lt {c d : CodePoint} (hd : d.val < 65) :
    d ∈ lowerChar c ↔ c = d := by
  unfold lowerChar
  split_ifs with hupper hkelvin hdotted
  · simp only [List.mem_singleton, Fin.ext_iff]
    omega
  · simp only [List.mem_singleton, Fin.ext_iff]
    constructor
    · intro h
      norm_num at h
      omega
    · intro h
      omega
  · simp only [List.mem_cons, List.not_mem_nil, or_false, Fin.ext_iff]
    constructor
    · intro h
      norm_num at h
      omega
    · intro h
      omega
  · simp only [List.mem_singleton]
    exact eq_comm

theorem lowerChar_of_lt {c : CodePoint} (hc : c.val < 65) :
    lowerChar c = [c] := by
  unfold lowerChar
  rw [dif_neg (by omega), if_neg (by omega), if_neg (by omega)]

theorem mem_lower_of_lt {s : Str} {d : CodePoint} (hd : d.val < 65) :
    d ∈ lower s ↔ d ∈ s := by
  simp only [lower, List.mem_flatMap, mem_lowerChar_of_lt hd]
  exact ⟨fun ⟨_, hc, h⟩ => h ▸ hc, fun h => ⟨d, h, rfl⟩⟩

theorem lower_eq_nil_iff {s : Str} : lower s = [] ↔ s = [] := by
  cases s with
  | nil => simp
  | cons c s => simp [lower_cons, lowerChar_ne_nil]

theorem lower_isInfix {s t : Str} (h : s <:+: t) : lower s <:+: lower t := by
  obtain ⟨a, b, rfl⟩ := h
  exact ⟨lower a, lower b, by simp [lower_append]⟩

/-- Lowering does not move a separator that lies below the letters. -/
theorem lower_join {sep : CodePoint} (hsep : sep.val < 65) (parts : List Str) :
    lower (join sep parts) = join sep (parts.map lower) := by
  induction parts with
  | nil => rfl
  | cons p parts ih =>
      cases parts with
      | nil => simp
      | cons q rest =>
          rw [join_cons_cons, lower_append, lower_cons, ih, lowerChar_of_lt hsep]
          simp [join_cons_cons]

theorem split_lower {sep : CodePoint} (hsep : sep.val < 65) (s : Str) :
    split sep (lower s) = (split sep s).map lower := by
  conv_lhs => rw [← join_split sep s, lower_join hsep]
  apply split_join
  · intro p hp
    obtain ⟨q, hq, rfl⟩ := List.mem_map.mp hp
    rw [mem_lower_of_lt hsep]
    exact notMem_of_mem_split hq
  · simpa using split_ne_nil sep s

end PromptCode.Py
