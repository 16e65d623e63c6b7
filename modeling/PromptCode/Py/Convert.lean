import PromptCode.Py.JsonLoads

/-!
# Conversions

The truth value of a JSON value, `x or y`, `int(x)` and `float(x)`, and the arithmetic of
floats.  What `str`, `int` and `float` make of a text is not fixed here.
-/

namespace PromptCode.Py

namespace Double

/-- The value in units. -/
def signed (x : Double) : ℤ := if x.neg then -x.units else x.units

def zero : Double := ⟨false, 0, 0, by decide⟩

def two : Double := ⟨false, 2 ^ 52, 1023, by decide⟩

end Double

namespace PyFloat

def zero : PyFloat := finite .zero

def two : PyFloat := finite .two

def isNeg : PyFloat → Bool
  | finite x => x.neg
  | inf neg => neg
  | nan => false

/-- `x < y`. -/
def lt : PyFloat → PyFloat → Bool
  | finite x, finite y => x.signed < y.signed
  | inf neg, finite _ => neg
  | finite _, inf neg => !neg
  | inf neg, inf neg' => neg && !neg'
  | _, _ => false

/-- `x >= y`. -/
def ge : PyFloat → PyFloat → Bool
  | nan, _ => false
  | _, nan => false
  | x, y => !x.lt y

/-- `x + y`. -/
@[irreducible] def add : PyFloat → PyFloat → PyFloat
  | finite x, finite y =>
      let sum := x.signed + y.signed
      -- a zero sum is negative when both operands are
      let neg := if sum = 0 then x.neg && y.neg else decide (sum < 0)
      ofNearest neg (Double.nearest neg sum.natAbs 1)
  | nan, _ => nan
  | _, nan => nan
  | inf neg, inf neg' => if neg = neg' then inf neg else nan
  | inf neg, finite _ => inf neg
  | finite _, inf neg => inf neg

/-- `x * y`. -/
@[irreducible] def mul : PyFloat → PyFloat → PyFloat
  | finite x, finite y =>
      let neg := xor x.neg y.neg
      ofNearest neg (Double.nearest neg (x.units * y.units) Double.unit)
  | nan, _ => nan
  | _, nan => nan
  | inf neg, inf neg' => inf (xor neg neg')
  | inf neg, finite x => if x.units = 0 then nan else inf (xor neg x.neg)
  | finite x, inf neg => if x.units = 0 then nan else inf (xor x.neg neg)

theorem mul_finite (x y : Double) : (finite x).mul (finite y) =
    ofNearest (xor x.neg y.neg) (Double.nearest (xor x.neg y.neg) (x.units * y.units)
      Double.unit) := by
  unfold PyFloat.mul
  rfl

/-- `-x`. -/
def neg : PyFloat → PyFloat
  | finite x => finite ⟨!x.neg, x.mant, x.shift, x.normal⟩
  | inf neg => inf !neg
  | nan => nan

/-- `x / y` where `y` is not zero. -/
@[irreducible] def div : PyFloat → PyFloat → PyFloat
  | finite x, finite y =>
      let neg := xor x.neg y.neg
      ofNearest neg (Double.nearest neg (x.units * Double.unit) y.units)
  | nan, _ => nan
  | _, nan => nan
  | inf _, inf _ => nan
  | inf neg, finite y => inf (xor neg y.neg)
  | finite x, inf neg => finite ⟨xor x.neg neg, 0, 0, by decide⟩

/-- The float of an integer, unless it overflows. -/
@[irreducible] def ofInt (z : ℤ) : Option PyFloat :=
  (Double.nearest (decide (z < 0)) (z.natAbs * Double.unit) 1).map finite

/-- `min(x, y)`. -/
def min (x y : PyFloat) : PyFloat := if y.lt x then y else x

/-- `max(x, y)`. -/
def max (x y : PyFloat) : PyFloat := if x.lt y then y else x

end PyFloat

/-- `int(x)` of a finite float. -/
def Double.trunc (x : Double) : ℤ :=
  let n : ℤ := (x.units / Double.unit : ℕ)
  if x.neg then -n else n

theorem Double.trunc_nonneg {x : Double} (h : x.neg = false) :
    x.trunc = (x.units / Double.unit : ℕ) := by
  rw [trunc, h]
  rfl

/-- `int(x)`, unless `x` is not finite. -/
def PyFloat.truncated : PyFloat → Option ℤ
  | finite x => some x.trunc
  | _ => none

/-- The conversions from and to text. -/
structure TextConversions where
  str : Json → Str
  int : Str → Option ℤ
  float : Str → Option PyFloat
  str_text : ∀ s, str (.str s) = s

/-- An exception of a conversion or of a method that a value does not have. -/
inductive ValueErr where
  | attribute
  | type
  | value
  | overflow
  deriving DecidableEq

namespace Json

/-- `bool(v)`. -/
def truthy : Json → Bool
  | .null => false
  | .bool b => b
  | .int z => z ≠ 0
  | .float (.finite x) => x.units ≠ 0
  | .float _ => true
  | .str s => s ≠ []
  | .arr items => !items.isEmpty
  | .obj fields => !fields.isEmpty

/-- `fields.get(k)`. -/
def getField (fields : List (Str × Json)) (k : Str) : Json := (fields.lookup k).getD .null

/-- A method of a dictionary is called of the value. -/
def asDict : Json → Except ValueErr (List (Str × Json))
  | .obj fields => .ok fields
  | _ => .error .attribute

/-- `(v or {})` as a dictionary. -/
def orDict (v : Json) : Except ValueErr (List (Str × Json)) :=
  if v.truthy then v.asDict else .ok []

variable (conv : TextConversions)

/-- `str(v or default)`. -/
def orText (v : Json) (default : Str) : Str := if v.truthy then conv.str v else default

/-- `int(v)`. -/
def toInt : Json → Except ValueErr ℤ
  | .bool b => .ok (if b then 1 else 0)
  | .int z => .ok z
  | .float (.finite x) => .ok x.trunc
  | .float (.inf _) => .error .overflow
  | .float .nan => .error .value
  | .str s => match conv.int s with
      | some z => .ok z
      | none => .error .value
  | _ => .error .type

/-- `int(v or default)`. -/
def orInt (v : Json) (default : ℤ) : Except ValueErr ℤ :=
  if v.truthy then v.toInt conv else .ok default

/-- `float(v)`. -/
def toFloat : Json → Except ValueErr PyFloat
  | .bool b => .ok (if b then .ofNearest false (Double.nearest false Double.unit 1) else .zero)
  | .int z => match PyFloat.ofInt z with
      | some x => .ok x
      | none => .error .overflow
  | .float x => .ok x
  | .str s => match conv.float s with
      | some x => .ok x
      | none => .error .value
  | _ => .error .type

/-- `float(v or 0.0)`. -/
def orFloat (v : Json) : Except ValueErr PyFloat :=
  if v.truthy then v.toFloat conv else .ok .zero

end Json

end PromptCode.Py
