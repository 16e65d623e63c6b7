import PromptCode.Py.JsonLoads

/-!
# The exceptions of `json.loads`

The scanner stops at the first thing that it cannot read, and the exception says what that
was.  It reads the same values as the scanner without exceptions.
-/

namespace PromptCode.Py

/-- `JSONDecodeError`, the `ValueError` of an integer with too many digits, and
`RecursionError`. -/
inductive LoadsErr where
  | decode
  | digits
  | recursion
  deriving DecidableEq

/-- A step that can only fail as a text that is not JSON. -/
def orDecode {α : Type} : Option α → Except LoadsErr α
  | some x => .ok x
  | none => .error .decode

def scanNumberOrRaise (o : LoadsOptions) (s : Str) : Except LoadsErr (Json × Str) := do
  let r ← orDecode (readNotation s)
  let neg := r.1.1
  let t := r.1.2
  if t.fraction = [] ∧ t.exponent = none then
    let n := digitsValue t.whole
    if t.whole.length ≤ o.maxDigits then .ok (.int (if neg then -n else n), r.2)
    else .error .digits
  else .ok (.float (.ofNearest neg (t.value neg)), r.2)

def scanScalarOrRaise (o : LoadsOptions) : Str → Except LoadsErr (Json × Str)
  | [] => .error .decode
  | c :: t =>
      if c = 34 then orDecode ((readString (t.length + 1) t).map fun r => (.str r.1, r.2))
      else
        match (literals o).find? fun l => l.1.isPrefixOf (c :: t) with
        | some l => .ok (l.2, (c :: t).drop l.1.length)
        | none => scanNumberOrRaise o (c :: t)

section

variable (read : Str → Except LoadsErr (Json × Str))

def readItemsOrRaise : ℕ → Str → Except LoadsErr (List Json × Str)
  | 0, _ => .error .decode
  | n + 1, s => do
      let r ← read s
      match skipSpace r.2 with
      | [] => .error .decode
      | c :: t =>
          if c = 93 then .ok ([r.1], t)
          else if c = 44 then
            (readItemsOrRaise n (skipSpace t)).map fun q => (r.1 :: q.1, q.2)
          else .error .decode

def readArrayOrRaise (t : Str) : Except LoadsErr (Json × Str) :=
  match skipSpace t with
  | [] => .error .decode
  | c :: u =>
      if c = 93 then .ok (.arr [], u)
      else (readItemsOrRaise read (t.length + 1) (c :: u)).map fun r => (.arr r.1, r.2)

def readFieldOrRaise : Str → Except LoadsErr ((Str × Json) × Str)
  | [] => .error .decode
  | c :: t =>
      if c = 34 then do
        let k ← orDecode (readString (t.length + 1) t)
        match skipSpace k.2 with
        | [] => .error .decode
        | d :: u =>
            if d = 58 then (read (skipSpace u)).map fun r => ((k.1, r.1), r.2)
            else .error .decode
      else .error .decode

def readFieldsOrRaise : ℕ → Str → Except LoadsErr (List (Str × Json) × Str)
  | 0, _ => .error .decode
  | n + 1, s => do
      let r ← readFieldOrRaise read s
      match skipSpace r.2 with
      | [] => .error .decode
      | c :: t =>
          if c = 125 then .ok ([r.1], t)
          else if c = 44 then
            (readFieldsOrRaise n (skipSpace t)).map fun q => (r.1 :: q.1, q.2)
          else .error .decode

def readObjectOrRaise (t : Str) : Except LoadsErr (Json × Str) :=
  match skipSpace t with
  | [] => .error .decode
  | c :: u =>
      if c = 125 then .ok (.obj [], u)
      else (readFieldsOrRaise read (t.length + 1) (c :: u)).map fun r =>
        (.obj (dictOf r.1), r.2)

end

def readValueOrRaise (o : LoadsOptions) : ℕ → Str → Except LoadsErr (Json × Str)
  | 0, [] => .error .decode
  -- a container is entered before it is looked into
  | 0, c :: t => if c = 91 ∨ c = 123 then .error .recursion else scanScalarOrRaise o (c :: t)
  | _ + 1, [] => .error .decode
  | d + 1, c :: t =>
      if c = 91 then readArrayOrRaise (readValueOrRaise o d) t
      else if c = 123 then readObjectOrRaise (readValueOrRaise o d) t
      else scanScalarOrRaise o (c :: t)

/-- `json.loads`, with its exceptions. -/
def loadsOrRaise (o : LoadsOptions) (depth : ℕ) (s : Str) : Except LoadsErr Json := do
  let r ← readValueOrRaise o depth (skipSpace s)
  if skipSpace r.2 = [] then .ok r.1 else .error .decode

/-! ## The values are the same -/

section

variable {α β : Type}

@[simp] theorem toOption_orDecode (x : Option α) : (orDecode x).toOption = x := by
  cases x <;> rfl

theorem toOption_bind (x : Except LoadsErr α) (f : α → Except LoadsErr β) :
    (x >>= f).toOption = x.toOption.bind fun a => (f a).toOption := by
  cases x <;> rfl

theorem toOption_map (x : Except LoadsErr α) (f : α → β) :
    (x.map f).toOption = x.toOption.map f := by
  cases x <;> rfl

theorem toOption_ite (c : Prop) [Decidable c] (x y : Except LoadsErr α) :
    (if c then x else y).toOption = if c then x.toOption else y.toOption := by
  split_ifs <;> rfl

end

theorem toOption_scanNumber (o : LoadsOptions) (s : Str) :
    (scanNumberOrRaise o s).toOption = scanNumber o s := by
  unfold scanNumberOrRaise scanNumber
  rw [toOption_bind, toOption_orDecode]
  refine congrArg _ (funext fun r => ?_)
  dsimp only
  rw [toOption_ite, toOption_ite]
  rfl

theorem toOption_scanScalar (o : LoadsOptions) (s : Str) :
    (scanScalarOrRaise o s).toOption = scanScalar o s := by
  rcases s with _ | ⟨c, t⟩
  · rfl
  · unfold scanScalarOrRaise scanScalar
    rw [toOption_ite, toOption_orDecode]
    refine if_congr Iff.rfl rfl ?_
    cases (literals o).find? fun l => l.1.isPrefixOf (c :: t) with
    | some l => rfl
    | none => exact toOption_scanNumber o _

section

variable {read : Str → Except LoadsErr (Json × Str)} {readOption : Str → Option (Json × Str)}

theorem toOption_readItems (h : ∀ s, (read s).toOption = readOption s) (n : ℕ) (s : Str) :
    (readItemsOrRaise read n s).toOption = readItems readOption n s := by
  induction n generalizing s with
  | zero => rfl
  | succ n ih =>
      rw [readItemsOrRaise, readItems, toOption_bind, h]
      refine congrArg _ (funext fun r => ?_)
      rcases skipSpace r.2 with _ | ⟨c, t⟩
      · rfl
      · dsimp only
        rw [toOption_ite, toOption_ite, toOption_map, ih]
        rfl

theorem toOption_readArray (h : ∀ s, (read s).toOption = readOption s) (t : Str) :
    (readArrayOrRaise read t).toOption = readArray readOption t := by
  unfold readArrayOrRaise readArray
  rcases skipSpace t with _ | ⟨c, u⟩
  · rfl
  · dsimp only
    rw [toOption_ite, toOption_map, toOption_readItems h]
    rfl

theorem toOption_readField (h : ∀ s, (read s).toOption = readOption s) (s : Str) :
    (readFieldOrRaise read s).toOption = readField readOption s := by
  rcases s with _ | ⟨c, t⟩
  · rfl
  · rw [readFieldOrRaise, readField, toOption_ite, toOption_bind, toOption_orDecode]
    refine if_congr Iff.rfl (congrArg _ (funext fun k => ?_)) rfl
    rcases skipSpace k.2 with _ | ⟨d, u⟩
    · rfl
    · dsimp only
      rw [toOption_ite, toOption_map, h]
      rfl

theorem toOption_readFields (h : ∀ s, (read s).toOption = readOption s) (n : ℕ) (s : Str) :
    (readFieldsOrRaise read n s).toOption = readFields readOption n s := by
  induction n generalizing s with
  | zero => rfl
  | succ n ih =>
      rw [readFieldsOrRaise, readFields, toOption_bind, toOption_readField h]
      refine congrArg _ (funext fun r => ?_)
      rcases skipSpace r.2 with _ | ⟨c, t⟩
      · rfl
      · dsimp only
        rw [toOption_ite, toOption_ite, toOption_map, ih]
        rfl

theorem toOption_readObject (h : ∀ s, (read s).toOption = readOption s) (t : Str) :
    (readObjectOrRaise read t).toOption = readObject readOption t := by
  unfold readObjectOrRaise readObject
  rcases skipSpace t with _ | ⟨c, u⟩
  · rfl
  · dsimp only
    rw [toOption_ite, toOption_map, toOption_readFields h]
    rfl

end

/-- No container is a scalar. -/
theorem scanScalar_bracket (o : LoadsOptions) {c : CodePoint} (h : c = 91 ∨ c = 123)
    (t : Str) : scanScalar o (c :: t) = none := by
  rcases o with ⟨digits, _ | _⟩ <;> rcases h with rfl | rfl <;> rfl

theorem toOption_readValue (o : LoadsOptions) (d : ℕ) (s : Str) :
    (readValueOrRaise o d s).toOption = readValue o d s := by
  induction d generalizing s with
  | zero =>
      rcases s with _ | ⟨c, t⟩
      · rfl
      · rw [readValueOrRaise, readValue]
        split_ifs with hopen
        · exact (scanScalar_bracket o hopen t).symm
        · exact toOption_scanScalar o _
  | succ d ih =>
      rcases s with _ | ⟨c, t⟩
      · rfl
      · rw [readValueOrRaise, readValue, toOption_ite, toOption_ite, toOption_readArray ih,
          toOption_readObject ih, toOption_scanScalar]

/-- The scanner with exceptions reads the values that the scanner without them reads. -/
theorem toOption_loads (o : LoadsOptions) (depth : ℕ) (s : Str) :
    (loadsOrRaise o depth s).toOption = jsonLoads o depth s := by
  unfold loadsOrRaise jsonLoads
  rw [toOption_bind, toOption_readValue]
  refine congrArg _ (funext fun r => ?_)
  rw [toOption_ite]
  rfl

theorem loadsOrRaise_eq_ok {o : LoadsOptions} {depth : ℕ} {s : Str} {v : Json} :
    loadsOrRaise o depth s = .ok v ↔ jsonLoads o depth s = some v := by
  rw [← toOption_loads]
  cases loadsOrRaise o depth s <;> simp [Except.toOption]

example :
    [lit "[1234, \x7d", lit "[\x7d, 1234", lit "[[1234", lit "[123]"].map (fun s =>
      match loadsOrRaise ⟨3, true⟩ 1 s with
      | .error e => some e
      | .ok _ => none) =
    [some .digits, some .decode, some .recursion, none] := by
  decide +kernel

end PromptCode.Py
