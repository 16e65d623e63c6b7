import PromptCode.Py.Str

/-!
# UTF-8 text

`str.encode("utf-8")`, `bytes.decode("utf-8", errors="replace")` and the
newline translation of a file opened in text mode.  Encoding fails on lone
surrogates only, and decoding gives back every string that was encoded.
-/

namespace PromptCode.Py

abbrev Bytes := List UInt8

/-! ## Encoding -/

/-- The bytes of one code point; a lone surrogate has none. -/
def encodeChar (c : CodePoint) : Option Bytes :=
  if c.val < 0x80 then some [UInt8.ofNat c.val]
  else if c.val < 0x800 then
    some [UInt8.ofNat (0xc0 + c.val / 64), UInt8.ofNat (0x80 + c.val % 64)]
  else if isSurrogate c then none
  else if c.val < 0x10000 then
    some [UInt8.ofNat (0xe0 + c.val / 4096),
      UInt8.ofNat (0x80 + c.val / 64 % 64), UInt8.ofNat (0x80 + c.val % 64)]
  else
    some [UInt8.ofNat (0xf0 + c.val / 262144),
      UInt8.ofNat (0x80 + c.val / 4096 % 64),
      UInt8.ofNat (0x80 + c.val / 64 % 64), UInt8.ofNat (0x80 + c.val % 64)]

/-- `s.encode("utf-8")`; `none` is `UnicodeEncodeError`. -/
def utf8Encode : Str → Option Bytes
  | [] => some []
  | c :: s => do
      let b ← encodeChar c
      let rest ← utf8Encode s
      return b ++ rest

theorem utf8Encode_append (s t : Str) :
    utf8Encode (s ++ t) =
      (utf8Encode s).bind fun a => (utf8Encode t).map fun b => a ++ b := by
  induction s with
  | nil =>
      cases ht : utf8Encode t <;> simp [utf8Encode, ht]
  | cons c s ih =>
      rw [List.cons_append, utf8Encode, ih, utf8Encode]
      cases encodeChar c <;> cases utf8Encode s <;> cases utf8Encode t <;> simp

/-! ## Decoding -/

def replacement : CodePoint := 0xfffd

def isContinuation (b : UInt8) : Bool := 0x80 ≤ b.toNat && b.toNat ≤ 0xbf

/-- The second bytes that may follow the first byte of three. -/
def isSecondOfThree (a b : UInt8) : Bool :=
  if a.toNat = 0xe0 then 0xa0 ≤ b.toNat && b.toNat ≤ 0xbf
  else if a.toNat = 0xed then 0x80 ≤ b.toNat && b.toNat ≤ 0x9f
  else isContinuation b

/-- The second bytes that may follow the first byte of four. -/
def isSecondOfFour (a b : UInt8) : Bool :=
  if a.toNat = 0xf0 then 0x90 ≤ b.toNat && b.toNat ≤ 0xbf
  else if a.toNat = 0xf4 then 0x80 ≤ b.toNat && b.toNat ≤ 0x8f
  else isContinuation b

def codePoint (n : ℕ) : CodePoint := Fin.ofNat _ n

/-- `data.decode("utf-8", errors="replace")`: each maximal broken piece of a
character is replaced by one U+FFFD. -/
def utf8DecodeReplace : Bytes → Str
  | [] => []
  | a :: rest =>
      if a.toNat < 0x80 then codePoint a.toNat :: utf8DecodeReplace rest
      else if 0xc2 ≤ a.toNat ∧ a.toNat ≤ 0xdf then
        match rest with
        | [] => [replacement]
        | b :: rest₁ =>
            if isContinuation b then
              codePoint ((a.toNat - 0xc0) * 64 + (b.toNat - 0x80)) ::
                utf8DecodeReplace rest₁
            else replacement :: utf8DecodeReplace (b :: rest₁)
      else if 0xe0 ≤ a.toNat ∧ a.toNat ≤ 0xef then
        match rest with
        | [] => [replacement]
        | b :: rest₁ =>
            if isSecondOfThree a b then
              match rest₁ with
              | [] => [replacement]
              | c :: rest₂ =>
                  if isContinuation c then
                    codePoint ((a.toNat - 0xe0) * 4096 +
                      (b.toNat - 0x80) * 64 + (c.toNat - 0x80)) ::
                        utf8DecodeReplace rest₂
                  else replacement :: utf8DecodeReplace (c :: rest₂)
            else replacement :: utf8DecodeReplace (b :: rest₁)
      else if 0xf0 ≤ a.toNat ∧ a.toNat ≤ 0xf4 then
        match rest with
        | [] => [replacement]
        | b :: rest₁ =>
            if isSecondOfFour a b then
              match rest₁ with
              | [] => [replacement]
              | c :: rest₂ =>
                  if isContinuation c then
                    match rest₂ with
                    | [] => [replacement]
                    | d :: rest₃ =>
                        if isContinuation d then
                          codePoint ((a.toNat - 0xf0) * 262144 +
                            (b.toNat - 0x80) * 4096 + (c.toNat - 0x80) * 64 +
                              (d.toNat - 0x80)) :: utf8DecodeReplace rest₃
                        else replacement :: utf8DecodeReplace (d :: rest₃)
                  else replacement :: utf8DecodeReplace (c :: rest₂)
            else replacement :: utf8DecodeReplace (b :: rest₁)
      else replacement :: utf8DecodeReplace rest

/-! ## Decoding undoes encoding -/

theorem toNat_ofNat_of_lt {n : ℕ} (h : n < 256) : (UInt8.ofNat n).toNat = n := by
  simp only [UInt8.toNat_ofNat']
  omega

theorem codePoint_eq {c : CodePoint} {n : ℕ} (h : n = c.val) :
    codePoint n = c := by
  subst h
  apply Fin.ext
  simp [codePoint]

theorem decode_encodeChar {c : CodePoint} {b : Bytes}
    (h : encodeChar c = some b) (rest : Bytes) :
    utf8DecodeReplace (b ++ rest) = c :: utf8DecodeReplace rest := by
  have hc := c.isLt
  unfold encodeChar at h
  split_ifs at h with h1 h2 h3 h4
  · obtain rfl := Option.some.inj h
    have ha : (UInt8.ofNat c.val).toNat = c.val := toNat_ofNat_of_lt (by omega)
    simp only [List.cons_append, List.nil_append]
    rw [utf8DecodeReplace.eq_def]
    simp only [ha, h1, ↓reduceIte, codePoint_eq (rfl : c.val = c.val)]
  · obtain rfl := Option.some.inj h
    have ha : (UInt8.ofNat (0xc0 + c.val / 64)).toNat = 0xc0 + c.val / 64 :=
      toNat_ofNat_of_lt (by omega)
    have hb : (UInt8.ofNat (0x80 + c.val % 64)).toNat = 0x80 + c.val % 64 :=
      toNat_ofNat_of_lt (by omega)
    have hcont : isContinuation (UInt8.ofNat (0x80 + c.val % 64)) = true := by
      simp only [isContinuation, hb, Bool.and_eq_true, decide_eq_true_eq]
      omega
    simp only [List.cons_append, List.nil_append]
    rw [utf8DecodeReplace.eq_def]
    simp only [ha, hb, hcont, ↓reduceIte]
    rw [if_neg (by omega), if_pos (by omega), codePoint_eq (c := c) (by omega)]
  · obtain rfl := Option.some.inj h
    have hs : ¬(0xd800 ≤ c.val ∧ c.val ≤ 0xdfff) := by
      simpa [isSurrogate] using h3
    have ha : (UInt8.ofNat (0xe0 + c.val / 4096)).toNat =
        0xe0 + c.val / 4096 := toNat_ofNat_of_lt (by omega)
    have hb : (UInt8.ofNat (0x80 + c.val / 64 % 64)).toNat =
        0x80 + c.val / 64 % 64 := toNat_ofNat_of_lt (by omega)
    have hd : (UInt8.ofNat (0x80 + c.val % 64)).toNat = 0x80 + c.val % 64 :=
      toNat_ofNat_of_lt (by omega)
    have hcont : isContinuation (UInt8.ofNat (0x80 + c.val % 64)) = true := by
      simp only [isContinuation, hd, Bool.and_eq_true, decide_eq_true_eq]
      omega
    have hsecond : isSecondOfThree (UInt8.ofNat (0xe0 + c.val / 4096))
        (UInt8.ofNat (0x80 + c.val / 64 % 64)) = true := by
      simp only [isSecondOfThree, isContinuation, ha, hb]
      split_ifs <;> simp only [Bool.and_eq_true, decide_eq_true_eq] <;> omega
    simp only [List.cons_append, List.nil_append]
    rw [utf8DecodeReplace.eq_def]
    simp only [ha, hb, hd, hcont, hsecond, ↓reduceIte]
    rw [if_neg (by omega), if_neg (by omega), if_pos (by omega),
      codePoint_eq (c := c) (by omega)]
  · obtain rfl := Option.some.inj h
    have ha : (UInt8.ofNat (0xf0 + c.val / 262144)).toNat =
        0xf0 + c.val / 262144 := toNat_ofNat_of_lt (by omega)
    have hb : (UInt8.ofNat (0x80 + c.val / 4096 % 64)).toNat =
        0x80 + c.val / 4096 % 64 := toNat_ofNat_of_lt (by omega)
    have hd : (UInt8.ofNat (0x80 + c.val / 64 % 64)).toNat =
        0x80 + c.val / 64 % 64 := toNat_ofNat_of_lt (by omega)
    have he : (UInt8.ofNat (0x80 + c.val % 64)).toNat = 0x80 + c.val % 64 :=
      toNat_ofNat_of_lt (by omega)
    have hcont : isContinuation (UInt8.ofNat (0x80 + c.val / 64 % 64)) = true := by
      simp only [isContinuation, hd, Bool.and_eq_true, decide_eq_true_eq]
      omega
    have hcont' : isContinuation (UInt8.ofNat (0x80 + c.val % 64)) = true := by
      simp only [isContinuation, he, Bool.and_eq_true, decide_eq_true_eq]
      omega
    have hsecond : isSecondOfFour (UInt8.ofNat (0xf0 + c.val / 262144))
        (UInt8.ofNat (0x80 + c.val / 4096 % 64)) = true := by
      simp only [isSecondOfFour, isContinuation, ha, hb]
      split_ifs <;> simp only [Bool.and_eq_true, decide_eq_true_eq] <;> omega
    simp only [List.cons_append, List.nil_append]
    rw [utf8DecodeReplace.eq_def]
    simp only [ha, hb, hd, he, hcont, hcont', hsecond, ↓reduceIte]
    rw [if_neg (by omega), if_neg (by omega), if_neg (by omega),
      if_pos (by omega), codePoint_eq (c := c) (by omega)]

/-- Decoding with replacement gives back every encoded string. -/
theorem decode_encode {s : Str} {b : Bytes} (h : utf8Encode s = some b) :
    utf8DecodeReplace b = s := by
  induction s generalizing b with
  | nil =>
      obtain rfl : [] = b := by simpa [utf8Encode] using h
      rfl
  | cons c s ih =>
      simp only [utf8Encode, Option.bind_eq_bind, Option.bind_eq_some_iff,
        Option.pure_def, Option.some.injEq] at h
      obtain ⟨b₁, hchar, b₂, hrest, rfl⟩ := h
      rw [decode_encodeChar hchar, ih hrest]

theorem utf8Encode_injective {s t : Str} {b : Bytes}
    (hs : utf8Encode s = some b) (ht : utf8Encode t = some b) : s = t := by
  rw [← decode_encode hs, decode_encode ht]

/-! ## Text mode -/

/-- Newline translation on reading: CR LF and CR become LF. -/
def universalNewlines : Str → Str
  | [] => []
  | [c] => if c = 13 then [10] else [c]
  | c :: d :: rest =>
      if c = 13 then
        if d = 10 then 10 :: universalNewlines rest
        else 10 :: universalNewlines (d :: rest)
      else c :: universalNewlines (d :: rest)

theorem cr_notMem_universalNewlines (s : Str) :
    (13 : CodePoint) ∉ universalNewlines s := by
  induction s using universalNewlines.induct with
  | case1 => simp [universalNewlines]
  | case2 => simp [universalNewlines]
  | case3 c hc => simpa [universalNewlines, hc] using Ne.symm hc
  | case4 rest ih => simpa [universalNewlines] using ih
  | case5 d rest hd ih => simpa [universalNewlines, hd] using ih
  | case6 c d rest hc ih =>
      simp only [universalNewlines, hc, if_false, List.mem_cons, not_or]
      exact ⟨Ne.symm hc, ih⟩

theorem universalNewlines_of_notMem {s : Str} (h : (13 : CodePoint) ∉ s) :
    universalNewlines s = s := by
  induction s using universalNewlines.induct with
  | case1 => rfl
  | case2 => simp at h
  | case3 c hc => simp [universalNewlines, hc]
  | case4 rest ih => simp at h
  | case5 d rest hd ih => simp at h
  | case6 c d rest hc ih =>
      simp only [List.mem_cons, not_or] at h
      simp only [universalNewlines, hc, if_false]
      rw [ih (by simpa using h.2)]

/-- Text is read back unchanged exactly when it holds no carriage return. -/
theorem universalNewlines_eq_self_iff {s : Str} :
    universalNewlines s = s ↔ (13 : CodePoint) ∉ s := by
  constructor
  · intro h
    rw [← h]
    exact cr_notMem_universalNewlines s
  · exact universalNewlines_of_notMem

/-- `path.read_text(encoding="utf-8", errors="replace")` of the bytes. -/
def readText (data : Bytes) : Str := universalNewlines (utf8DecodeReplace data)

theorem readText_encode {s : Str} {b : Bytes} (h : utf8Encode s = some b) :
    readText b = universalNewlines s := by
  rw [readText, decode_encode h]

end PromptCode.Py
