import PromptCode.Py.Utf8

/-!
# JSON text

The strings and numbers that `json.dumps` writes with its default
`ensure_ascii`: everything outside printable ASCII is escaped, so the text is
ASCII.  Reading such a string gives it back, as long as no high surrogate stands
alone in it.
-/

namespace PromptCode.Py

/-- `\uXXXX`. -/
def jsonUnicodeEscape (n : ℕ) : Str :=
  [backslash, 117, hexDigit (n / 4096), hexDigit (n / 256),
    hexDigit (n / 16), hexDigit n]

/-- The characters with a two-character escape, and its second character. -/
def jsonShortEscapes : List (ℕ × CodePoint) :=
  [(34, 34), (92, 92), (10, 110), (13, 114), (9, 116), (12, 102), (8, 98)]

/-- One character inside a JSON string. -/
def jsonChar (c : CodePoint) : Str :=
  match jsonShortEscapes.lookup c.val with
  | some d => [backslash, d]
  | none =>
      if 32 ≤ c.val ∧ c.val ≤ 126 then [c]
      else if c.val < 0x10000 then jsonUnicodeEscape c.val
      else
        jsonUnicodeEscape (0xd800 + (c.val - 0x10000) / 1024) ++
          jsonUnicodeEscape (0xdc00 + (c.val - 0x10000) % 1024)

/-- `json.dumps` of a string. -/
def jsonString (s : Str) : Str := 34 :: (s.flatMap jsonChar ++ [34])

/-- `json.dumps` of a natural number. -/
def jsonNat (n : ℕ) : Str := (Nat.toDigits 10 n).map ord

def IsAscii (s : Str) : Prop := ∀ c ∈ s, c.val < 128

/-- The bytes of an ASCII string. -/
def asciiBytes (s : Str) : Bytes := s.map fun c => UInt8.ofNat c.val

/-- On ASCII text UTF-8 writes one byte for each character. -/
theorem utf8Encode_of_isAscii {s : Str} (h : IsAscii s) :
    utf8Encode s = some (asciiBytes s) := by
  induction s with
  | nil => rfl
  | cons c s ih =>
      have hc : c.val < 0x80 := h c (by simp)
      have hs : IsAscii s := fun d hd => h d (by simp [hd])
      simp [utf8Encode, ih hs, encodeChar, hc, asciiBytes]

theorem IsAscii.append {s t : Str} (hs : IsAscii s) (ht : IsAscii t) :
    IsAscii (s ++ t) := by
  intro c hc
  rcases List.mem_append.mp hc with hc | hc
  · exact hs c hc
  · exact ht c hc

theorem isAscii_of_all {s : Str} (h : s.all (fun c => c.val < 128) = true) :
    IsAscii s := fun c hc => by simpa using List.all_eq_true.mp h c hc

theorem hexDigit_lt (n : ℕ) : (hexDigit n).val < 128 := by
  unfold hexDigit
  split_ifs <;> simp only [Fin.val_ofNat] <;> omega

theorem isAscii_jsonUnicodeEscape (n : ℕ) : IsAscii (jsonUnicodeEscape n) := by
  intro c hc
  simp only [jsonUnicodeEscape, List.mem_cons, List.not_mem_nil, or_false] at hc
  rcases hc with rfl | rfl | rfl | rfl | rfl | rfl
  · decide
  · decide
  all_goals exact hexDigit_lt _

theorem isAscii_jsonChar (c : CodePoint) : IsAscii (jsonChar c) := by
  unfold jsonChar
  cases hshort : jsonShortEscapes.lookup c.val with
  | some d =>
      have hall : ∀ e ∈ jsonShortEscapes, e.2.val < 128 := by decide
      obtain ⟨before, after, heq, -⟩ := List.lookup_eq_some_iff.mp hshort
      have hd : d.val < 128 := hall (c.val, d) (by simp [heq])
      intro x hx
      simp only [List.mem_cons, List.not_mem_nil, or_false] at hx
      rcases hx with rfl | rfl
      · decide
      · exact hd
  | none =>
      dsimp only
      split_ifs with hprint hbmp
      · intro x hx
        rw [List.mem_singleton.mp hx]
        omega
      · exact isAscii_jsonUnicodeEscape _
      · exact (isAscii_jsonUnicodeEscape _).append (isAscii_jsonUnicodeEscape _)

theorem isAscii_jsonString (s : Str) : IsAscii (jsonString s) := by
  intro c hc
  simp only [jsonString, List.mem_cons, List.mem_append, List.mem_flatMap,
    List.not_mem_nil, or_false] at hc
  rcases hc with rfl | ⟨d, -, hd⟩ | rfl
  · decide
  · exact isAscii_jsonChar d c hd
  · decide

theorem isAscii_jsonNat (n : ℕ) : IsAscii (jsonNat n) := by
  intro c hc
  obtain ⟨d, hd, rfl⟩ := List.mem_map.mp hc
  have hdigit := Nat.isDigit_of_mem_toDigits (by decide) (by decide) hd
  simp only [Char.isDigit, Bool.and_eq_true, decide_eq_true_eq] at hdigit
  have hle : d.toNat ≤ 57 := hdigit.2
  simp only [ord]
  omega

/-! ## Reading -/

def hexValue (c : CodePoint) : Option ℕ :=
  if 48 ≤ c.val ∧ c.val ≤ 57 then some (c.val - 48)
  else if 97 ≤ c.val ∧ c.val ≤ 102 then some (c.val - 87)
  else if 65 ≤ c.val ∧ c.val ≤ 70 then some (c.val - 55)
  else none

/-- Four hexadecimal digits and what follows them. -/
def readHex4 : Str → Option (ℕ × Str)
  | a :: b :: c :: d :: rest => do
      let x ← hexValue a
      let y ← hexValue b
      let z ← hexValue c
      let w ← hexValue d
      return (x * 4096 + y * 256 + z * 16 + w, rest)
  | _ => none

/-- After the escape of a high surrogate, the escape of a low one. -/
def readLowSurrogate (high : ℕ) (s : Str) : Option (ℕ × Str) :=
  if 0xd800 ≤ high ∧ high < 0xdc00 then
    match s with
    | b :: u :: rest =>
        if b = backslash ∧ u = 117 then
          (readHex4 rest).filter fun r => 0xdc00 ≤ r.1 ∧ r.1 < 0xe000
        else none
    | _ => none
  else none

/-- The short escapes that are read; a slash is never written this way. -/
def jsonReadEscapes : List (ℕ × CodePoint) := jsonShortEscapes ++ [(47, 47)]

/-- The character an escape sequence stands for, after its backslash. -/
def readEscape : Str → Option (CodePoint × Str)
  | [] => none
  | d :: rest =>
      if d = 117 then
        (readHex4 rest).map fun r =>
          match readLowSurrogate r.1 r.2 with
          | some low =>
              (Fin.ofNat _ (0x10000 + (r.1 - 0xd800) * 1024 + (low.1 - 0xdc00)),
                low.2)
          | none => (Fin.ofNat _ r.1, r.2)
      else
        (jsonReadEscapes.find? fun e => e.2 = d).map fun e =>
          (Fin.ofNat _ e.1, rest)

/-- The characters of a JSON string up to its closing quote, and what follows;
each round reads one character. -/
def readString : ℕ → Str → Option (Str × Str)
  | 0, _ => none
  | _ + 1, [] => none
  | n + 1, c :: rest =>
      if c = 34 then some ([], rest)
      else if c = backslash then
        (readEscape rest).bind fun r =>
          (readString n r.2).map fun t => (r.1 :: t.1, t.2)
      else if c.val < 32 then none
      else (readString n rest).map fun t => (c :: t.1, t.2)

theorem hexValue_hexDigit (n : ℕ) : hexValue (hexDigit n) = some (n % 16) := by
  have hlt : n % 16 < 16 := Nat.mod_lt _ (by decide)
  have hall : ∀ m < 16, hexValue
      (if m < 10 then Fin.ofNat _ (48 + m) else Fin.ofNat _ (87 + m)) = some m := by
    decide
  exact hall _ hlt

theorem readHex4_hexDigits {n : ℕ} (hn : n < 0x10000) (rest : Str) :
    readHex4 (hexDigit (n / 4096) :: hexDigit (n / 256) :: hexDigit (n / 16) ::
      hexDigit n :: rest) = some (n, rest) := by
  simp only [readHex4, hexValue_hexDigit, Option.bind_eq_bind, Option.bind_some,
    Option.pure_def, Option.some.injEq, Prod.mk.injEq, and_true]
  omega

theorem readEscape_unicodeEscape {n : ℕ} (hn : n < 0x10000)
    (hhigh : ¬ (0xd800 ≤ n ∧ n < 0xdc00)) (rest : Str) :
    readEscape ((jsonUnicodeEscape n).tail ++ rest) =
      some (Fin.ofNat _ n, rest) := by
  have hlow : readLowSurrogate n rest = none := by
    unfold readLowSurrogate
    rw [if_neg hhigh]
  simp only [jsonUnicodeEscape, List.tail_cons, List.cons_append,
    List.nil_append, readEscape, if_true, readHex4_hexDigits hn, Option.map_some,
    hlow]

theorem readEscape_surrogates (high low : ℕ) (hh : 0xd800 ≤ high)
    (hh' : high < 0xdc00) (hl : 0xdc00 ≤ low) (hl' : low < 0xe000) (rest : Str) :
    readEscape ((jsonUnicodeEscape high).tail ++ (jsonUnicodeEscape low ++ rest)) =
      some (Fin.ofNat _ (0x10000 + (high - 0xd800) * 1024 + (low - 0xdc00)),
        rest) := by
  have hlow : readLowSurrogate high (jsonUnicodeEscape low ++ rest) =
      some (low, rest) := by
    unfold readLowSurrogate
    rw [if_pos ⟨hh, hh'⟩]
    simp [jsonUnicodeEscape, readHex4_hexDigits (show low < 0x10000 by omega),
      Option.filter, hl, hl']
  rw [jsonUnicodeEscape] at hlow ⊢
  simp only [List.tail_cons, List.cons_append, List.nil_append, readEscape,
    if_true, readHex4_hexDigits (show high < 0x10000 by omega), Option.map_some]
  rw [jsonUnicodeEscape]
  simp only [List.cons_append, List.nil_append] at hlow ⊢
  rw [hlow]

/-- A text that is read as one character of a string. -/
def ReadsAs (text : Str) (c : CodePoint) : Prop :=
  ∀ n rest, readString (n + 1) (text ++ rest) =
    (readString n rest).map fun t => (c :: t.1, t.2)

theorem readsAs_escape {e : Str} {c : CodePoint}
    (h : ∀ rest, readEscape (e ++ rest) = some (c, rest)) :
    ReadsAs (backslash :: e) c := by
  intro n rest
  rw [List.cons_append, readString, if_neg (by decide), if_pos rfl, h]
  rfl

theorem readsAs_self {c : CodePoint} (hquote : c ≠ 34) (hslash : c ≠ backslash)
    (hcontrol : 32 ≤ c.val) : ReadsAs [c] c := by
  intro n rest
  rw [List.cons_append, List.nil_append, readString, if_neg hquote, if_neg hslash,
    if_neg (by omega)]

theorem readsAs_shortEscape {c d : CodePoint}
    (h : jsonShortEscapes.lookup c.val = some d) : ReadsAs [backslash, d] c := by
  have hall : ∀ e ∈ jsonShortEscapes, e.2 ≠ 117 ∧
      jsonReadEscapes.find? (fun f => f.2 = e.2) = some e := by decide
  obtain ⟨before, after, heq, -⟩ := List.lookup_eq_some_iff.mp h
  obtain ⟨hu, hfind⟩ := hall (c.val, d) (by simp [heq])
  apply readsAs_escape
  intro rest
  simp only [List.cons_append, List.nil_append, readEscape, if_neg hu, hfind,
    Option.map_some, Option.some.injEq, Prod.mk.injEq, and_true]
  exact Fin.ext (Nat.mod_eq_of_lt c.isLt)

theorem readsAs_unicodeEscape {c : CodePoint} (hbmp : c.val < 0x10000)
    (hhigh : ¬ (0xd800 ≤ c.val ∧ c.val < 0xdc00)) :
    ReadsAs (jsonUnicodeEscape c.val) c := by
  have hcode : (Fin.ofNat 0x110000 c.val : CodePoint) = c :=
    Fin.ext (Nat.mod_eq_of_lt c.isLt)
  refine readsAs_escape (e := (jsonUnicodeEscape c.val).tail) fun rest => ?_
  rw [readEscape_unicodeEscape hbmp hhigh, hcode]

theorem readsAs_surrogates {c : CodePoint} (hastral : ¬ c.val < 0x10000) :
    ReadsAs (jsonUnicodeEscape (0xd800 + (c.val - 0x10000) / 1024) ++
      jsonUnicodeEscape (0xdc00 + (c.val - 0x10000) % 1024)) c := by
  have hlt := c.isLt
  have hcode : (Fin.ofNat 0x110000 (0x10000 +
      (0xd800 + (c.val - 0x10000) / 1024 - 0xd800) * 1024 +
      (0xdc00 + (c.val - 0x10000) % 1024 - 0xdc00)) : CodePoint) = c := by
    apply Fin.ext
    simp only [Fin.val_ofNat]
    omega
  refine readsAs_escape (e := (jsonUnicodeEscape _).tail ++ jsonUnicodeEscape _)
    fun rest => ?_
  have hread := readEscape_surrogates
    (0xd800 + (c.val - 0x10000) / 1024)
    (0xdc00 + (c.val - 0x10000) % 1024) (by omega) (by omega)
    (by omega) (by omega) rest
  rw [List.append_assoc, hread, hcode]

theorem ne_of_lookup_eq_none {c : CodePoint}
    (h : jsonShortEscapes.lookup c.val = none) : c ≠ 34 ∧ c ≠ backslash := by
  constructor <;> (rintro rfl; revert h; decide)

/-- One character written and read back, unless it is a high surrogate. -/
theorem readsAs_jsonChar {c : CodePoint} (hc : ¬ (0xd800 ≤ c.val ∧ c.val < 0xdc00)) :
    ReadsAs (jsonChar c) c := by
  unfold jsonChar
  rcases hshort : jsonShortEscapes.lookup c.val with _ | d
  · obtain ⟨hquote, hslash⟩ := ne_of_lookup_eq_none hshort
    dsimp only
    split_ifs with hprint hbmp
    · exact readsAs_self hquote hslash hprint.1
    · exact readsAs_unicodeEscape hbmp hc
    · exact readsAs_surrogates hbmp
  · exact readsAs_shortEscape hshort

/-- A string is read back if each of its characters is. -/
theorem readString_flatMap {f : CodePoint → Str} {s : Str}
    (hs : ∀ c ∈ s, ReadsAs (f c) c) {n : ℕ} (hn : s.length < n) (rest : Str) :
    readString n (s.flatMap f ++ 34 :: rest) = some (s, rest) := by
  induction s generalizing n with
  | nil =>
      obtain ⟨k, rfl⟩ : ∃ k, n = k + 1 := ⟨n - 1, by simp at hn; omega⟩
      simp [readString]
  | cons c s ih =>
      obtain ⟨k, rfl⟩ : ∃ k, n = k + 1 := ⟨n - 1, by simp at hn; omega⟩
      rw [List.flatMap_cons, List.append_assoc, hs c (by simp),
        ih (fun d hd => hs d (by simp [hd])) (by simpa using hn)]
      rfl

/-- A string written by `json.dumps` is read back. -/
theorem readString_jsonString {s : Str} (hs : ∀ c ∈ s, isUnencodable c = false)
    {n : ℕ} (hn : s.length < n) (rest : Str) :
    readString n (s.flatMap jsonChar ++ 34 :: rest) = some (s, rest) := by
  refine readString_flatMap (fun c hc => readsAs_jsonChar ?_) hn rest
  have hplain := hs c hc
  simp only [isUnencodable, isSurrogate, Bool.and_eq_false_iff, decide_eq_false_iff_not,
    Bool.not_eq_false', Bool.and_eq_true, decide_eq_true_eq] at hplain
  omega

def isDigit (c : CodePoint) : Bool := 48 ≤ c.val && c.val ≤ 57

/-- The decimal digits at the front of a text, and what follows. -/
def readNat (s : Str) : ℕ × Str :=
  ((s.takeWhile isDigit).foldl (fun n c => 10 * n + (c.val - 48)) 0,
    s.dropWhile isDigit)

theorem isDigit_of_mem_jsonNat {n : ℕ} {c : CodePoint} (hc : c ∈ jsonNat n) :
    isDigit c = true := by
  obtain ⟨d, hd, rfl⟩ := List.mem_map.mp hc
  have hdigit := Nat.isDigit_of_mem_toDigits (by decide) (by decide) hd
  simp only [Char.isDigit, Bool.and_eq_true, decide_eq_true_eq] at hdigit
  have hge : 48 ≤ d.toNat := hdigit.1
  have hle : d.toNat ≤ 57 := hdigit.2
  simp [isDigit, ord, hge, hle]

/-- A number is read back up to the first character that is not a digit. -/
theorem readNat_jsonNat (n : ℕ) {rest : Str}
    (hrest : ∀ c, rest.head? = some c → isDigit c = false) :
    readNat (jsonNat n ++ rest) = (n, rest) := by
  have hall : ∀ c ∈ jsonNat n, isDigit c = true := fun c hc =>
    isDigit_of_mem_jsonNat hc
  have htake : rest.takeWhile isDigit = [] ∧ rest.dropWhile isDigit = rest := by
    cases rest with
    | nil => simp
    | cons c rest =>
        have := hrest c rfl
        simp [this]
  have hvalue : (jsonNat n).foldl (fun m c => 10 * m + (c.val - 48)) 0 = n := by
    rw [jsonNat, List.foldl_map]
    have := Nat.ofDigitChars_ten_toDigits (n := n)
    rw [Nat.ofDigitChars_eq_foldl] at this
    exact this
  rw [readNat, List.takeWhile_append_of_pos hall, List.dropWhile_append_of_pos hall,
    htake.1, htake.2, List.append_nil, hvalue]

end PromptCode.Py
