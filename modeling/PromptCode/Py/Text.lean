import PromptCode.Py.JsonLoads

/-!
# `str(v)` and `float(s)`

The text that `str` makes of a JSON value, and the float that `float` makes of a text.  Three
things are looked up in the Unicode database.
-/

namespace PromptCode.Py

/-- What is looked up in the Unicode database. -/
structure UnicodeData where
  /-- `s.lower()` -/
  lower : Str → Str
  /-- `unicodedata.decimal(c)`: these characters match `\d`. -/
  decimal : CodePoint → Option (Fin 10)
  /-- `c.isprintable()` -/
  printable : CodePoint → Bool
  decimal_ascii : ∀ c : CodePoint, c.val < 128 →
    decimal c = if isDigit c then some (Fin.ofNat 10 (c.val - 48)) else none

/-- The database as far as ASCII goes. -/
def UnicodeData.ascii : UnicodeData where
  lower := Py.lower
  decimal c := if isDigit c then some (Fin.ofNat 10 (c.val - 48)) else none
  printable c := 32 ≤ c.val && c.val ≤ 126
  decimal_ascii := fun _ _ => rfl

variable (u : UnicodeData)

/-! ## `repr` -/

/-- One character inside the quotes. -/
def reprChar (quote c : CodePoint) : Str :=
  if c = quote ∨ c = backslash then [backslash, c]
  else if c = 9 then [backslash, 116]
  else if c = 10 then [backslash, 110]
  else if c = 13 then [backslash, 114]
  else if 32 ≤ c.val ∧ c.val < 127 ∨ 128 ≤ c.val ∧ u.printable c then [c]
  else if c.val < 0x100 then [backslash, 120, hexDigit (c.val / 16), hexDigit c.val]
  else if c.val < 0x10000 then jsonUnicodeEscape c.val
  else [backslash, 85, hexDigit (c.val / 0x10000000), hexDigit (c.val / 0x1000000),
    hexDigit (c.val / 0x100000), hexDigit (c.val / 0x10000), hexDigit (c.val / 0x1000),
    hexDigit (c.val / 0x100), hexDigit (c.val / 0x10), hexDigit c.val]

/-- `repr(s)`: in double quotes only when the text holds a single quote and no double one. -/
def reprText (s : Str) : Str :=
  let quote : CodePoint := if 39 ∈ s ∧ 34 ∉ s then 34 else 39
  quote :: (s.flatMap (reprChar u quote) ++ [quote])

/-- `repr(x)` -/
def PyFloat.repr : PyFloat → Str
  | .finite x => x.repr
  | .inf neg => (if neg then [45] else []) ++ lit "inf"
  | .nan => lit "nan"

mutual

/-- `repr(v)` -/
def Json.repr : Json → Str
  | .null => lit "None"
  | .bool b => if b then lit "True" else lit "False"
  | .int z => intText z
  | .float x => x.repr
  | .str s => reprText u s
  | .arr [] => lit "[]"
  | .arr (v :: items) => lit "[" ++ (v.repr ++ itemsRepr items)
  | .obj [] => lit "\x7b\x7d"
  | .obj (f :: fields) => lit "\x7b" ++ (fieldRepr f ++ fieldsRepr fields)

/-- The items after the first one, and the closing bracket. -/
def itemsRepr : List Json → Str
  | [] => lit "]"
  | v :: items => lit ", " ++ (v.repr ++ itemsRepr items)

def fieldRepr : Str × Json → Str
  | (k, v) => reprText u k ++ (lit ": " ++ v.repr)

/-- The fields after the first one, and the closing brace. -/
def fieldsRepr : List (Str × Json) → Str
  | [] => lit "\x7d"
  | f :: fields => lit ", " ++ (fieldRepr f ++ fieldsRepr fields)

end

/-- `str(v)` -/
def Json.toStr : Json → Str
  | .str s => s
  | v => v.repr u

/-! ## `float` of a text -/

/-- Every decimal digit becomes the ASCII one; what is neither ASCII nor a digit becomes a
question mark. -/
def asciiDigits (s : Str) : Str :=
  s.map fun c =>
    if c.val < 127 then c
    else match u.decimal c with
      | some d => Fin.ofNat _ (48 + d.val)
      | none => 63

/-- The text without its underscores, which may only stand between two digits. -/
def dropUnderscores : Bool → Str → Option Str
  | _, [] => some []
  | afterDigit, c :: t =>
      if c = 95 then
        if afterDigit && t.head?.any isDigit then dropUnderscores false t else none
      else (dropUnderscores (isDigit c) t).map (c :: ·)

/-- The digits on both sides of the point, and what follows them. -/
def readDigits (s : Str) : (Str × Str) × Str :=
  let whole := s.takeWhile isDigit
  match s.dropWhile isDigit with
  | [] => ((whole, []), [])
  | c :: t =>
      if c = dot then ((whole, t.takeWhile isDigit), t.dropWhile isDigit)
      else ((whole, []), c :: t)

/-- A decimal number without a sign, up to the end of the text. -/
def readDecimal (neg : Bool) (s : Str) : Option PyFloat :=
  let ((whole, fraction), t) := readDigits s
  let (exponent, rest) := readExponent t
  if whole ++ fraction = [] ∨ rest ≠ [] then none
  else some (.ofNearest neg
    (Double.ofDecimal neg (digitsValue (whole ++ fraction))
      (exponent.getD 0 - fraction.length)))

/-- `float(s)` of a text without white space; `none` is the `ValueError`. -/
def floatOfText (s : Str) : Option PyFloat :=
  (dropUnderscores false (asciiDigits u s)).bind fun s =>
    let (neg, t) := readSign s
    if lower t = lit "inf" ∨ lower t = lit "infinity" then some (.inf neg)
    else if lower t = lit "nan" then some .nan
    else readDecimal neg t

example : [lit "+1_0.5e-1", lit "-.5", lit "1e400", lit "1__0", lit "nan", lit "e5"].map
    (fun s => (floatOfText .ascii s).map PyFloat.repr) =
    [some (lit "1.05"), some (lit "-0.5"), some (lit "inf"), none, some (lit "nan"), none] := by
  decide +kernel

end PromptCode.Py
