import PromptCode.Py.Convert

/-!
# Equality of values

`v == w` for the values that `json.loads` yields: a number has one form, whichever type it
has, and a dictionary has its keys in order.
-/

namespace PromptCode.Py

/-- A number in the form that all numbers equal to it have. -/
def PyFloat.canonical : PyFloat → Json
  | .finite x =>
      if x.units % Double.unit = 0 then .int x.trunc else .float (.finite x)
  | x => .float x

mutual

/-- A value with every number in its one form. -/
def Json.canonical : Json → Json
  | .bool b => .int (if b then 1 else 0)
  | .float x => x.canonical
  | .arr items => .arr (itemsCanonical items)
  | .obj fields => .obj (fieldsCanonical fields)
  | v => v

def itemsCanonical : List Json → List Json
  | [] => []
  | v :: items => v.canonical :: itemsCanonical items

def fieldCanonical : Str × Json → Str × Json
  | (k, v) => (k, v.canonical)

def fieldsCanonical : List (Str × Json) → List (Str × Json)
  | [] => []
  | f :: fields => fieldCanonical f :: fieldsCanonical fields

end

namespace Json

/-- The text of a value, its strings as they are; two values have the same one when they are
equal, or both `NaN`. -/
def form (v : Json) : Str := v.canonical.sortKeys.text compactRawStyle

/-- `v == w`; `NaN` is not equal to itself. -/
def eq (v w : Json) : Bool := v.form = w.form && v.form ≠ lit "NaN"

theorem eq_comm (v w : Json) : v.eq w = w.eq v := by
  unfold eq
  by_cases h : v.form = w.form
  · rw [h]
  · rw [decide_eq_false h, decide_eq_false (Ne.symm h), Bool.false_and, Bool.false_and]

/-- Whether the value can be a member of a set. -/
def hashable : Json → Bool
  | .arr _ => false
  | .obj _ => false
  | _ => true

end Json

end PromptCode.Py
