import PromptCode.ListScoring
import PromptCode.Py.Err
import PromptCode.Py.Sha256

/-!
# The record of a run

`_process_run`: the output of one run is read, compared with the ground truth, checked for
its shape and searched for a confidence value.  The record is made exactly when none of
these meets something that only some of their exceptions are caught for.
-/

namespace PromptCode

open Py Scorer

variable (py : Interpreter)

/-! ## The usage of a run -/

/-- One call of a model, as the relay has recorded it. -/
structure TelemetryCall where
  tokensPrompt : Option ℤ
  tokensCompletion : Option ℤ
  tokensTotal : Option ℤ
  costUsd : Option PyFloat
  latencyMs : Option PyFloat
  retryIndex : Option ℤ

/-- One step of the compensated sum of floats: the sum and the error it has made. -/
def compensate (sum : PyFloat × PyFloat) (x : PyFloat) : PyFloat × PyFloat :=
  let t := sum.1.add x
  if sum.1.abs.ge x.abs then (t, sum.2.add ((sum.1.sub t).add x))
  else (t, sum.2.add ((x.sub t).add sum.1))

/-- `sum(xs)` of floats -/
def sumFloats (xs : List PyFloat) : PyFloat :=
  let sum := xs.foldl compensate (.zero, .zero)
  if sum.2.isFinite && !sum.2.isZero then sum.1.add sum.2 else sum.1

/-! ## The shape of an output -/

/-- `all(..)` and the loop over the keys: the first false result ends it. -/
def allOrRaise {α : Type} (check : α → Except ScoreErr Bool) : List α → Except ScoreErr Bool
  | [] => .ok true
  | a :: l => do if ← check a then allOrRaise check l else .ok false

/-- `isinstance(v, (int, float)) and not isinstance(v, bool)` -/
def isPlainNumber : Json → Bool
  | .int _ => true
  | .float _ => true
  | _ => false

/-- `_validate_shape`, with the number of calls that may still be nested. -/
def validateShape : ℕ → Json → Json → Except ScoreErr Bool
  | 0, _, _ => .error .recursion
  | n + 1, got, expected =>
      match expected, got with
      | .null, .null => .ok true
      | .bool _, .bool _ => .ok true
      | .int _, got => .ok (isPlainNumber got)
      | .float _, got => .ok (isPlainNumber got)
      | .str _, .str _ => .ok true
      | .arr [], .arr _ => .ok true
      | .arr (sample :: _), .arr got =>
          match n with
          -- the generator of `all` is a call too
          | 0 => .error .recursion
          | m + 1 => allOrRaise (fun item => validateShape m item sample) got
      | .obj expected, .obj got =>
          allOrRaise (fun f => match got.lookup f.1 with
            | none => .ok false
            | some v => validateShape n v f.2) expected
      | _, _ => .ok false

/-- `_is_schema_valid` -/
def isSchemaValid (output mode : Str) (groundTruth : Json) : Except ScoreErr Bool :=
  if mode ≠ lit "json" then .ok (!(strip output).isEmpty)
  else match (do
    let got ← loads py output
    let expected ← expectedValue py groundTruth
    validateShape py.frames got expected) with
  | .ok valid => .ok valid
  | .error e => if e.isValueError then .ok false else .error e

/-! ## The confidence of an output -/

/-- A number under a key that speaks of confidence. -/
def isConfidence (f : Str × Json) : Bool :=
  (match f.2 with
    | .bool _ => true
    | v => isPlainNumber v) &&
  [lit "confidence", lit "probability", lit "prob"].any fun t =>
    contains t (py.unicode.lower f.1)

/-- `_extract_confidence_value` -/
def extractConfidenceValue (output : Str) : Except ScoreErr (Option PyFloat) :=
  match loads py output with
  | .ok (.obj fields) => match fields.find? (isConfidence py) with
      | some f => (parseNumber py f.2).map some
      | none => .ok none
  | .ok _ => .ok none
  | .error e => if e.isValueError then .ok none else .error e

/-! ## The record -/

structure SandboxResult where
  success : Bool
  output : Str
  telemetry : List TelemetryCall
  error : Option Str

inductive RunStatus where
  | pass
  | fail
  deriving DecidableEq

structure RunRecord where
  runType : Str
  runIndex : ℕ
  success : Bool
  status : RunStatus
  accuracy : PyFloat
  schemaValid : Bool
  confidence : Option PyFloat
  outputChars : ℕ
  outputHash : Option Str
  tokensPrompt : ℤ
  tokensCompletion : ℤ
  tokensTotal : ℤ
  costUsd : PyFloat
  latencyMs : PyFloat
  llmCalls : ℕ
  retries : ℕ
  error : Option Str
  metadata : List (Str × Json)

/-- What scoring finds out about an output. -/
structure OutputScore where
  accuracy : PyFloat := .zero
  schemaValid : Bool := false
  confidence : Option PyFloat := none
  chars : ℕ := 0
  hash : Option Str := none

/-- `hashlib.sha256(raw.encode("utf-8")).hexdigest() if raw else None` -/
def outputHash (raw : Str) : Except ScoreErr (Option Str) :=
  if raw.isEmpty then .ok none
  else match utf8Encode raw with
    | some data => .ok (some (sha256Hex data))
    | none => .error .encode

/-- The scoring of the output of a successful run. -/
def scoreOutput (output mode : Str) (groundTruth : Json) : Except ScoreErr OutputScore := do
  let raw := strip output
  let hash ← outputHash raw
  let accuracy ← scoreAccuracy py raw groundTruth mode
  let schemaValid ← isSchemaValid py raw mode groundTruth
  let confidence ← extractConfidenceValue py raw
  return { accuracy, schemaValid, confidence, chars := raw.length, hash }

/-- The record of a run whose output has been scored. -/
def runRecord (result : SandboxResult) (score : OutputScore) (runType : Str) (runIndex : ℕ)
    (metadata : List (Str × Json)) : RunRecord :=
  let calls := result.telemetry
  { runType := runType
    runIndex := runIndex
    success := result.success
    status := if result.success && score.accuracy.ge (.ofDecimal 8 (-1)) && score.schemaValid
      then .pass else .fail
    accuracy := score.accuracy.round 4
    schemaValid := score.schemaValid
    confidence := score.confidence
    outputChars := score.chars
    outputHash := score.hash
    tokensPrompt := (calls.map fun c => c.tokensPrompt.getD 0).sum
    tokensCompletion := (calls.map fun c => c.tokensCompletion.getD 0).sum
    tokensTotal := (calls.map fun c => c.tokensTotal.getD 0).sum
    costUsd := (sumFloats (calls.map fun c => c.costUsd.getD .zero)).round 6
    latencyMs := (sumFloats (calls.map fun c => c.latencyMs.getD .zero)).round 2
    llmCalls := calls.length
    retries := calls.countP fun c => 0 < c.retryIndex.getD 0
    error := result.error
    metadata := metadata }

@[simp] theorem runRecord_accuracy (result : SandboxResult) (score : OutputScore) (runType : Str)
    (runIndex : ℕ) (metadata : List (Str × Json)) :
    (runRecord result score runType runIndex metadata).accuracy = score.accuracy.round 4 := rfl

/-- `_process_run` -/
def processRun (result : SandboxResult) (groundTruth : Json) (mode runType : Str)
    (runIndex : ℕ) (metadata : List (Str × Json)) : Except ScoreErr RunRecord := do
  let score ← if result.success then scoreOutput py result.output mode groundTruth
    else .ok {}
  return runRecord result score runType runIndex metadata

/-! ## The shape, and the calls that its check nests -/

mutual

/-- The value has the shape that is expected; a list has the one of its first item. -/
def fitsShape : Json → Json → Bool
  | .null, .null => true
  | .bool _, .bool _ => true
  | .int _, got => isPlainNumber got
  | .float _, got => isPlainNumber got
  | .str _, .str _ => true
  | .arr [], .arr _ => true
  | .arr (sample :: _), .arr got => got.all (fitsShape sample)
  | .obj expected, .obj got => fieldsFit expected got
  | _, _ => false

def fieldFits : Str × Json → List (Str × Json) → Bool
  | (k, v), got => match got.lookup k with
      | none => false
      | some w => fitsShape v w

def fieldsFit : List (Str × Json) → List (Str × Json) → Bool
  | [], _ => true
  | f :: fields, got => fieldFits f got && fieldsFit fields got

end

/-- The most calls that checks made one after the other nest, up to the first one that
fails. -/
def framesUntil {α : Type} (fits : α → Bool) (frames : α → ℕ) : List α → ℕ
  | [] => 0
  | a :: l => Max.max (frames a) (if fits a then framesUntil fits frames l else 0)

mutual

/-- The calls that `_validate_shape` nests. -/
def shapeFrames : Json → Json → ℕ
  | .arr (sample :: _), .arr got => framesUntil (fitsShape sample) (shapeFrames sample) got + 2
  | .obj expected, .obj got => fieldsFrames expected got + 1
  | _, _ => 1

def fieldFrames : Str × Json → List (Str × Json) → ℕ
  | (k, v), got => match got.lookup k with
      | none => 0
      | some w => shapeFrames v w

def fieldsFrames : List (Str × Json) → List (Str × Json) → ℕ
  | [], _ => 0
  | f :: fields, got =>
      Max.max (fieldFrames f got) (if fieldFits f got then fieldsFrames fields got else 0)

end

theorem fieldsFit_eq (fields got : List (Str × Json)) :
    fieldsFit fields got = fields.all fun f => fieldFits f got := by
  induction fields with
  | nil => rfl
  | cons f fields ih => rw [fieldsFit, List.all_cons, ih]

theorem fieldsFrames_eq (fields got : List (Str × Json)) :
    fieldsFrames fields got =
      framesUntil (fun f => fieldFits f got) (fun f => fieldFrames f got) fields := by
  induction fields with
  | nil => rfl
  | cons f fields ih => rw [fieldsFrames, framesUntil, ih]

/-- The result of a check that nests some number of calls. -/
def withinFrames (n frames : ℕ) (fits : Bool) : Except ScoreErr Bool :=
  if frames ≤ n then .ok fits else .error .recursion

theorem allOrRaise_eq {α : Type} {check : α → Except ScoreErr Bool} {fits : α → Bool}
    {frames : α → ℕ} {n : ℕ} {l : List α}
    (h : ∀ a ∈ l, check a = withinFrames n (frames a) (fits a)) :
    allOrRaise check l = withinFrames n (framesUntil fits frames l) (l.all fits) := by
  induction l with
  | nil => rfl
  | cons a l ih =>
      have hrest := ih fun b hb => h b (by simp [hb])
      rw [allOrRaise, h a (by simp), framesUntil, List.all_cons]
      unfold withinFrames at hrest ⊢
      by_cases hframes : frames a ≤ n
      · rw [if_pos hframes]
        cases hfits : fits a with
        | false =>
            rw [if_pos (by simpa using hframes)]
            rfl
        | true =>
            simp only [if_true, Bool.true_and]
            have hmax : Max.max (frames a) (framesUntil fits frames l) ≤ n ↔
                framesUntil fits frames l ≤ n := by omega
            simp only [hmax]
            exact hrest
      · rw [if_neg hframes, if_neg (by omega)]
        rfl

/-- The check of the shape, as far as the interpreter nests calls. -/
theorem validateShape_eq (n : ℕ) (got expected : Json) :
    validateShape n got expected =
      withinFrames n (shapeFrames expected got) (fitsShape expected got) := by
  induction expected using Json.containers_induction generalizing n got with
  | scalar v harr hobj =>
      have hframes : shapeFrames v got = 1 := by
        cases v with
        | arr items => exact absurd rfl (harr items)
        | obj fields => exact absurd rfl (hobj fields)
        | _ => rfl
      rw [hframes]
      cases n with
      | zero => rfl
      | succ n =>
          rw [withinFrames, if_pos (by omega)]
          cases v with
          | arr items => exact absurd rfl (harr items)
          | obj fields => exact absurd rfl (hobj fields)
          | int z => cases got <;> rfl
          | float x => cases got <;> rfl
          | _ => cases got <;> rfl
  | arr items ih =>
      cases n with
      | zero =>
          rw [withinFrames, if_neg]
          · rfl
          · unfold shapeFrames
            split <;> omega
      | succ n =>
          cases got with
          | arr got =>
              cases items with
              | nil => rfl
              | cons sample items =>
                  have hall := fun m => allOrRaise_eq (n := m) (l := got)
                    fun v _ => ih sample (by simp) m v
                  cases n with
                  | zero => rfl
                  | succ m =>
                      rw [validateShape, hall m, shapeFrames, fitsShape]
                      unfold withinFrames
                      simp only [Nat.add_le_add_iff_right]
          | _ => cases items <;> rfl
  | obj fields ih =>
      cases n with
      | zero =>
          rw [withinFrames, if_neg]
          · rfl
          · unfold shapeFrames
            split <;> omega
      | succ n =>
          cases got with
          | obj got =>
              have hfield : ∀ f ∈ fields, (match got.lookup f.1 with
                  | none => .ok false
                  | some v => validateShape n v f.2) =
                  withinFrames n (fieldFrames f got) (fieldFits f got) := by
                rintro ⟨k, v⟩ hf
                unfold fieldFrames fieldFits
                dsimp only
                cases got.lookup k with
                | none => rfl
                | some w => exact ih (k, v) hf n w
              rw [validateShape, allOrRaise_eq hfield, shapeFrames, fitsShape, fieldsFit_eq,
                fieldsFrames_eq]
              unfold withinFrames
              simp only [Nat.add_le_add_iff_right]
          | _ => rfl

end PromptCode
