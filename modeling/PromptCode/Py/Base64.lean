import PromptCode.Py.Utf8

/-!
# Base64

`base64.b64encode` and `base64.b64decode(..., validate=True)`.  Three bytes
become four characters, and decoding gives the bytes back.
-/

namespace PromptCode.Py

/-- The character for six bits. -/
def b64Char (n : ℕ) : CodePoint :=
  if n < 26 then Fin.ofNat _ (65 + n)
  else if n < 52 then Fin.ofNat _ (71 + n)
  else if n < 62 then Fin.ofNat _ (n - 4)
  else if n = 62 then 43
  else 47

abbrev b64Pad : CodePoint := 61

def b64Value (c : CodePoint) : Option ℕ :=
  if 65 ≤ c.val ∧ c.val ≤ 90 then some (c.val - 65)
  else if 97 ≤ c.val ∧ c.val ≤ 122 then some (c.val - 71)
  else if 48 ≤ c.val ∧ c.val ≤ 57 then some (c.val + 4)
  else if c.val = 43 then some 62
  else if c.val = 47 then some 63
  else none

/-- `base64.b64encode(data).decode("ascii")`. -/
def b64encode : Bytes → Str
  | [] => []
  | [a] => [b64Char (a.toNat / 4), b64Char (a.toNat % 4 * 16), b64Pad, b64Pad]
  | [a, b] =>
      [b64Char (a.toNat / 4), b64Char (a.toNat % 4 * 16 + b.toNat / 16),
        b64Char (b.toNat % 16 * 4), b64Pad]
  | a :: b :: c :: rest =>
      b64Char (a.toNat / 4) :: b64Char (a.toNat % 4 * 16 + b.toNat / 16) ::
        b64Char (b.toNat % 16 * 4 + c.toNat / 64) :: b64Char (c.toNat % 64) ::
          b64encode rest

/-- The bytes of four characters, the last group possibly padded. -/
def b64Group (last : Bool) (a b c d : CodePoint) : Option Bytes := do
  let x ← b64Value a
  let y ← b64Value b
  if last ∧ c = b64Pad ∧ d = b64Pad then
    return [UInt8.ofNat (x * 4 + y / 16)]
  else
    let z ← b64Value c
    if last ∧ d = b64Pad then
      return [UInt8.ofNat (x * 4 + y / 16), UInt8.ofNat (y % 16 * 16 + z / 4)]
    else
      let w ← b64Value d
      return [UInt8.ofNat (x * 4 + y / 16), UInt8.ofNat (y % 16 * 16 + z / 4),
        UInt8.ofNat (z % 4 * 64 + w)]

/-- `base64.b64decode(s, validate=True)`; `none` is `binascii.Error`. -/
def b64decode : Str → Option Bytes
  | [] => some []
  | a :: b :: c :: d :: rest => do
      let group ← b64Group (decide (rest = [])) a b c d
      let more ← b64decode rest
      return group ++ more
  | _ => none

theorem b64Value_b64Char {n : ℕ} (hn : n < 64) : b64Value (b64Char n) = some n := by
  have hall : ∀ m < 64, b64Value (b64Char m) = some m := by decide
  exact hall n hn

theorem b64Char_ne_pad {n : ℕ} (hn : n < 64) : b64Char n ≠ b64Pad := by
  intro h
  have := b64Value_b64Char hn
  rw [h] at this
  simp [b64Value] at this

theorem ofNat_eq_of_toNat {a : UInt8} {n : ℕ} (h : n = a.toNat) :
    UInt8.ofNat n = a := by
  subst h
  exact UInt8.ofNat_toNat

theorem b64decode_b64encode (data : Bytes) : b64decode (b64encode data) = some data := by
  fun_induction b64encode data with
  | case1 => rfl
  | case2 a =>
      have ha := a.toNat_lt
      have h1 := b64Value_b64Char (show a.toNat / 4 < 64 by omega)
      have h2 := b64Value_b64Char (show a.toNat % 4 * 16 < 64 by omega)
      have hbyte : UInt8.ofNat (a.toNat / 4 * 4 + a.toNat % 4 * 16 / 16) = a :=
        ofNat_eq_of_toNat (by omega)
      simp only [b64decode, b64Group, h1, h2, Option.bind_eq_bind,
        Option.bind_some, Option.pure_def, decide_true, and_self, if_true, hbyte,
        List.append_nil]
  | case3 a b =>
      have ha := a.toNat_lt
      have hb := b.toNat_lt
      have h1 := b64Value_b64Char (show a.toNat / 4 < 64 by omega)
      have h2 := b64Value_b64Char
        (show a.toNat % 4 * 16 + b.toNat / 16 < 64 by omega)
      have h3 := b64Value_b64Char (show b.toNat % 16 * 4 < 64 by omega)
      have hpad := b64Char_ne_pad (show b.toNat % 16 * 4 < 64 by omega)
      have hbyte : UInt8.ofNat (a.toNat / 4 * 4 +
          (a.toNat % 4 * 16 + b.toNat / 16) / 16) = a :=
        ofNat_eq_of_toNat (by omega)
      have hbyte' : UInt8.ofNat ((a.toNat % 4 * 16 + b.toNat / 16) % 16 * 16 +
          b.toNat % 16 * 4 / 4) = b :=
        ofNat_eq_of_toNat (by omega)
      simp only [b64decode, b64Group, h1, h2, h3, hpad, Option.bind_eq_bind,
        Option.bind_some, Option.pure_def, decide_true, and_self, false_and,
        and_false, if_true, if_false, hbyte, hbyte', List.append_nil]
  | case4 a b c rest ih =>
      have ha := a.toNat_lt
      have hb := b.toNat_lt
      have hc := c.toNat_lt
      have h1 := b64Value_b64Char (show a.toNat / 4 < 64 by omega)
      have h2 := b64Value_b64Char
        (show a.toNat % 4 * 16 + b.toNat / 16 < 64 by omega)
      have h3 := b64Value_b64Char
        (show b.toNat % 16 * 4 + c.toNat / 64 < 64 by omega)
      have h4 := b64Value_b64Char (show c.toNat % 64 < 64 by omega)
      have hpad := b64Char_ne_pad (show c.toNat % 64 < 64 by omega)
      have hbyte : UInt8.ofNat (a.toNat / 4 * 4 +
          (a.toNat % 4 * 16 + b.toNat / 16) / 16) = a :=
        ofNat_eq_of_toNat (by omega)
      have hbyte' : UInt8.ofNat ((a.toNat % 4 * 16 + b.toNat / 16) % 16 * 16 +
          (b.toNat % 16 * 4 + c.toNat / 64) / 4) = b :=
        ofNat_eq_of_toNat (by omega)
      have hbyte'' : UInt8.ofNat ((b.toNat % 16 * 4 + c.toNat / 64) % 4 * 64 +
          c.toNat % 64) = c :=
        ofNat_eq_of_toNat (by omega)
      simp only [b64decode, b64Group, h1, h2, h3, h4, hpad, Option.bind_eq_bind,
        Option.bind_some, Option.pure_def, and_false, if_false, hbyte, hbyte',
        hbyte'', ih, List.cons_append, List.nil_append]

theorem b64encode_length (data : Bytes) :
    (b64encode data).length = 4 * ((data.length + 2) / 3) := by
  fun_induction b64encode data with
  | case1 => rfl
  | case2 a => simp
  | case3 a b => simp
  | case4 a b c rest ih =>
      simp only [List.length_cons, ih]
      omega

end PromptCode.Py
