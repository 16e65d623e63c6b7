import Mathlib.Data.List.Sort
import PromptCode.Py.FloatRepr

/-!
# JSON values

The values that `json.loads` yields and `json.dumps` writes.  An object is the list
of its items, in the order of their insertion.
-/

namespace PromptCode.Py

inductive Json where
  | null
  | bool (b : Bool)
  | int (z : ℤ)
  | float (x : PyFloat)
  | str (s : Str)
  | arr (items : List Json)
  | obj (fields : List (Str × Json))

/-- The options of `json.dumps` that change the text. -/
structure JsonStyle where
  ensureAscii : Bool
  itemSeparator : Str
  keySeparator : Str

/-- `separators=(',', ':')`. -/
def compactStyle : JsonStyle := ⟨true, lit ",", lit ":"⟩

/-- The default separators. -/
def spacedStyle : JsonStyle := ⟨true, lit ", ", lit ": "⟩

/-- `ensure_ascii=False`. -/
def compactRawStyle : JsonStyle := ⟨false, lit ",", lit ":"⟩

/-- One character inside a JSON string that need not be ASCII. -/
def rawChar (c : CodePoint) : Str :=
  match jsonShortEscapes.lookup c.val with
  | some d => [backslash, d]
  | none => if c.val < 32 then jsonUnicodeEscape c.val else [c]

def JsonStyle.string (style : JsonStyle) (s : Str) : Str :=
  34 :: (s.flatMap (if style.ensureAscii then jsonChar else rawChar) ++ [34])

def intText (z : ℤ) : Str := (if z < 0 then [45] else []) ++ jsonNat z.natAbs

def PyFloat.text : PyFloat → Str
  | .finite x => x.repr
  | .inf neg => (if neg then [45] else []) ++ lit "Infinity"
  | .nan => lit "NaN"

mutual

/-- `json.dumps`. -/
def Json.text (style : JsonStyle) : Json → Str
  | .null => lit "null"
  | .bool b => if b then lit "true" else lit "false"
  | .int z => intText z
  | .float x => x.text
  | .str s => style.string s
  | .arr [] => lit "[]"
  | .arr (v :: items) => lit "[" ++ (v.text style ++ itemsText style items)
  | .obj [] => lit "\x7b\x7d"
  | .obj (f :: fields) =>
      lit "\x7b" ++ (fieldText style f ++ fieldsText style fields)

/-- The items after the first one, and the closing bracket. -/
def itemsText (style : JsonStyle) : List Json → Str
  | [] => lit "]"
  | v :: items => style.itemSeparator ++ (v.text style ++ itemsText style items)

def fieldText (style : JsonStyle) : Str × Json → Str
  | (k, v) => style.string k ++ (style.keySeparator ++ v.text style)

/-- The fields after the first one, and the closing brace. -/
def fieldsText (style : JsonStyle) : List (Str × Json) → Str
  | [] => lit "\x7d"
  | f :: fields =>
      style.itemSeparator ++ (fieldText style f ++ fieldsText style fields)

end

mutual

/-- How deep containers are nested. -/
def Json.depth : Json → ℕ
  | .arr items => itemsDepth items + 1
  | .obj fields => fieldsDepth fields + 1
  | _ => 0

def itemsDepth : List Json → ℕ
  | [] => 0
  | v :: items => max v.depth (itemsDepth items)

def fieldDepth : Str × Json → ℕ
  | (_, v) => v.depth

def fieldsDepth : List (Str × Json) → ℕ
  | [] => 0
  | f :: fields => max (fieldDepth f) (fieldsDepth fields)

end

mutual

/-- `sort_keys=True`. -/
def Json.sortKeys : Json → Json
  | .arr items => .arr (itemsSortKeys items)
  | .obj fields =>
      .obj ((fieldsSortKeys fields).insertionSort fun f g => f.1 ≤ g.1)
  | v => v

def itemsSortKeys : List Json → List Json
  | [] => []
  | v :: items => v.sortKeys :: itemsSortKeys items

def fieldSortKeys : Str × Json → Str × Json
  | (k, v) => (k, v.sortKeys)

def fieldsSortKeys : List (Str × Json) → List (Str × Json)
  | [] => []
  | f :: fields => fieldSortKeys f :: fieldsSortKeys fields

end

mutual

/-- A property of every scalar and every key. -/
def Json.All (scalar : Json → Prop) (key : Str → Prop) : Json → Prop
  | .arr items => AllItems scalar key items
  | .obj fields => (fields.map Prod.fst).Nodup ∧ AllFields scalar key fields
  | v => scalar v

def AllItems (scalar : Json → Prop) (key : Str → Prop) : List Json → Prop
  | [] => True
  | v :: items => v.All scalar key ∧ AllItems scalar key items

def AllField (scalar : Json → Prop) (key : Str → Prop) : Str × Json → Prop
  | (k, v) => key k ∧ v.All scalar key

def AllFields (scalar : Json → Prop) (key : Str → Prop) : List (Str × Json) → Prop
  | [] => True
  | f :: fields => AllField scalar key f ∧ AllFields scalar key fields

end

def PyFloat.isFinite : PyFloat → Bool
  | .finite _ => true
  | _ => false

mutual

/-- Every scalar of the value passes. -/
def Json.every (p : Json → Bool) : Json → Bool
  | .arr items => everyItem p items
  | .obj fields => everyField p fields
  | v => p v

def everyItem (p : Json → Bool) : List Json → Bool
  | [] => true
  | v :: items => v.every p && everyItem p items

def fieldEvery (p : Json → Bool) : Str × Json → Bool
  | (_, v) => v.every p

def everyField (p : Json → Bool) : List (Str × Json) → Bool
  | [] => true
  | f :: fields => fieldEvery p f && everyField p fields

end

/-- No float is an infinity or `nan`: `allow_nan=False` does not raise. -/
def Json.allFinite : Json → Bool :=
  Json.every fun
    | .float x => x.isFinite
    | _ => true

/-- The limit of the interpreter on the digits of an integer that is converted from
or to a string. -/
def maxStrDigits : ℕ := 4300

/-- No integer is too long to be written. -/
def Json.allWritten : Json → Bool :=
  Json.every fun
    | .int z => (jsonNat z.natAbs).length ≤ maxStrDigits
    | _ => true

/-- Induction over the containers of a value. -/
@[elab_as_elim]
theorem Json.containers_induction {P : Json → Prop}
    (scalar : ∀ v : Json, (∀ items, v ≠ .arr items) → (∀ fields, v ≠ .obj fields) →
      P v)
    (arr : ∀ items, (∀ v ∈ items, P v) → P (.arr items))
    (obj : ∀ fields : List (Str × Json), (∀ f ∈ fields, P f.2) → P (.obj fields))
    (v : Json) : P v := by
  apply Json.rec (motive_1 := P) (motive_2 := fun items => ∀ v ∈ items, P v)
    (motive_3 := fun fields => ∀ f ∈ fields, P f.2) (motive_4 := fun f => P f.2)
  · exact scalar _ (by simp) (by simp)
  · exact fun b => scalar _ (by simp) (by simp)
  · exact fun z => scalar _ (by simp) (by simp)
  · exact fun x => scalar _ (by simp) (by simp)
  · exact fun s => scalar _ (by simp) (by simp)
  · exact arr
  · exact obj
  · simp
  · intro v items hv hitems w hw
    rcases List.mem_cons.mp hw with rfl | hw
    · exact hv
    · exact hitems w hw
  · simp
  · intro f fields hf hfields g hg
    rcases List.mem_cons.mp hg with rfl | hg
    · exact hf
    · exact hfields g hg
  · exact fun k v hv => hv

theorem depth_le_of_mem_items {v : Json} {items : List Json} (h : v ∈ items) :
    v.depth ≤ itemsDepth items := by
  induction items with
  | nil => simp at h
  | cons w items ih =>
      rcases List.mem_cons.mp h with rfl | h
      · exact le_max_left _ _
      · exact (ih h).trans (le_max_right _ _)

theorem depth_le_of_mem_fields {f : Str × Json} {fields : List (Str × Json)}
    (h : f ∈ fields) : f.2.depth ≤ fieldsDepth fields := by
  induction fields with
  | nil => simp at h
  | cons g fields ih =>
      rcases List.mem_cons.mp h with rfl | h
      · obtain ⟨k, v⟩ := f
        exact le_max_left v.depth (fieldsDepth fields)
      · exact (ih h).trans (le_max_right _ _)

theorem allItems_iff {scalar : Json → Prop} {key : Str → Prop} {items : List Json} :
    AllItems scalar key items ↔ ∀ v ∈ items, Json.All scalar key v := by
  induction items with
  | nil => simp [AllItems]
  | cons v items ih => simp [AllItems, ih]

theorem everyItem_iff {p : Json → Bool} {items : List Json} :
    everyItem p items = true ↔ ∀ v ∈ items, v.every p = true := by
  induction items with
  | nil => simp [everyItem]
  | cons v items ih => simp [everyItem, ih]

theorem everyField_iff {p : Json → Bool} {fields : List (Str × Json)} :
    everyField p fields = true ↔ ∀ f ∈ fields, f.2.every p = true := by
  induction fields with
  | nil => simp [everyField]
  | cons f fields ih =>
      obtain ⟨k, v⟩ := f
      simp [everyField, fieldEvery, ih]

theorem allFields_iff {scalar : Json → Prop} {key : Str → Prop}
    {fields : List (Str × Json)} :
    AllFields scalar key fields ↔ ∀ f ∈ fields, key f.1 ∧ f.2.All scalar key := by
  induction fields with
  | nil => simp [AllFields]
  | cons f fields ih =>
      obtain ⟨k, v⟩ := f
      simp [AllFields, AllField, ih]

theorem Json.All.imp {scalar scalar' : Json → Prop} {key key' : Str → Prop}
    (hscalar : ∀ v, scalar v → scalar' v) (hkey : ∀ k, key k → key' k) {v : Json}
    (h : v.All scalar key) : v.All scalar' key' := by
  induction v using Json.containers_induction with
  | scalar v harr hobj =>
      match v with
      | .null | .bool _ | .int _ | .float _ | .str _ => exact hscalar _ h
      | .arr items => exact absurd rfl (harr items)
      | .obj fields => exact absurd rfl (hobj fields)
  | arr items ih => exact allItems_iff.mpr fun v hv => ih v hv (allItems_iff.mp h v hv)
  | obj fields ih =>
      refine ⟨h.1, allFields_iff.mpr ?_⟩
      intro f hf
      obtain ⟨hk, hv⟩ := allFields_iff.mp h.2 f hf
      exact ⟨hkey _ hk, ih f hf hv⟩

example : (Json.obj [(lit "b", .arr [.null, .int (-3)]), (lit "a", .bool true)]).sortKeys.text
    compactStyle = lit "\x7b\"a\":true,\"b\":[null,-3]\x7d" := by decide

end PromptCode.Py
