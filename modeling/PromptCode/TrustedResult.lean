import PromptCode.Py.JsonLoads
import PromptCode.Py.Sha256
import PromptCode.SourceManifest

/-!
# Trusted grading results

`trusted_evaluator.py`: the evaluator compares what the probes of a challenge
observed with what its inventory expects and signs the outcome; the verifier accepts
an envelope for one identity only.
-/

namespace PromptCode

open Py FileTree

/-! ## Inventories -/

/-- A string of the service's own: it has no surrogates. -/
abbrev Text := {s : Str // IsText s}

structure Case where
  id : Text
  weight : ℕ
  probe : Text
  expected : Json

/-- `trusted_cases`: the version of the probes, the cases of each supported
challenge, and what is left to a reviewer. -/
structure Inventories where
  version : Text
  casesFor : Str → Option (List Case)
  manualRequirements : Str → List Text

def textList (l : List Text) : Json := .arr (l.map fun t => .str t.1)

def jsonHash (v : Json) : Str := sha256Hex (asciiBytes (v.sortKeys.text compactStyle))

def Case.toJson (c : Case) : Json :=
  .obj [(lit "id", .str c.id.1), (lit "weight", .int c.weight),
    (lit "probe", .str c.probe.1), (lit "expected", c.expected)]

/-- `inventory_digest` of a supported challenge. -/
def Inventories.digest (inv : Inventories) (slug : Str) (cases : List Case) : Str :=
  jsonHash (.obj [(lit "version", .str inv.version.1),
    (lit "cases", .arr (cases.map Case.toJson)),
    (lit "manual", textList (inv.manualRequirements slug))])

/-! ## Signatures -/

/-- `_canonical`. -/
def canonical (v : Json) : Except PyErr Bytes :=
  if v.allFinite = false then
    .error (.value "Out of range float values are not JSON compliant")
  else if v.allWritten = false then
    .error (.value "Exceeds the limit for integer string conversion")
  else .ok (asciiBytes (v.sortKeys.text compactStyle))

/-- `_key`. -/
def signingKey (key : Str) : Except PyErr Bytes :=
  match utf8Encode key with
  | none => .error .unicodeEncode
  | some bytes =>
      if bytes.length < 32 then
        .error (.value "Trusted grading signing key must contain at least 32 bytes")
      else .ok bytes

/-- The signature of a payload. -/
def signature (key : Str) (payload : Json) : Except PyErr Str := do
  let bytes ← signingKey key
  let message ← canonical payload
  return hmacSha256Hex bytes message

def signResult (key : Str) (payload : Json) : Except PyErr Json := do
  let s ← signature key payload
  return .obj [(lit "payload", payload), (lit "signature", .str s)]

/-! ## Identities -/

/-- What a result is bound to besides the version of the probes. -/
structure GradingIdentity where
  sessionId : Text
  jobId : Text
  challengeSlug : Text
  sourceDigest : Text
  challengeVersion : Text
  leaseToken : Option Text

def optionalText : Option Text → Json
  | none => .null
  | some t => .str t.1

/-- `dict.get`. -/
def fieldOf (fields : List (Str × Json)) (k : String) : Json :=
  (fields.lookup (lit k)).getD .null

theorem fieldOf_cons (j : String) (v : Json) (fields : List (Str × Json)) (k : String) :
    fieldOf ((lit j, v) :: fields) k = if k = j then v else fieldOf fields k := by
  unfold fieldOf
  rw [List.lookup_cons]
  by_cases h : k = j
  · simp [h]
  · have hlit : (lit k == lit j) = false := by simpa [lit_inj] using h
    simp [h, hlit]

/-- Equality with a string or `None`. -/
def equalsText : Json → Option Str → Bool
  | .null, none => true
  | .str s, some t => s = t
  | _, _ => false

theorem equalsText_str (s t : Str) : equalsText (.str s) (some t) = decide (s = t) :=
  rfl

/-- The fields of a payload that bind it, and what they have to be. -/
def bindings (inv : Inventories) (ident : GradingIdentity) (cases : List Case) :
    List (String × Option Str) :=
  [("session_id", some ident.sessionId.1), ("job_id", some ident.jobId.1),
    ("challenge_slug", some ident.challengeSlug.1),
    ("source_digest", some ident.sourceDigest.1),
    ("evaluator_version", some inv.version.1),
    ("inventory_digest", some (inv.digest ident.challengeSlug.1 cases)),
    ("challenge_version", some ident.challengeVersion.1),
    ("lease_token", ident.leaseToken.map Subtype.val)]

/-! ## Grading -/

inductive ProbeError where
  | timeout | candidateError | invalidOutput
  deriving DecidableEq

def ProbeError.text : ProbeError → Str
  | .timeout => lit "timeout"
  | .candidateError => lit "candidate_error"
  | .invalidOutput => lit "invalid_output"

/-- What `_run_probe` returns. -/
structure Observation where
  observed : Json
  error : Option ProbeError

structure CaseResult where
  id : Text
  weight : ℕ
  passed : Bool
  error : Option ProbeError

def errorJson : Option ProbeError → Json
  | none => .null
  | some e => .str e.text

def CaseResult.toJson (r : CaseResult) : Json :=
  .obj [(lit "id", .str r.id.1), (lit "weight", .int r.weight),
    (lit "passed", .bool r.passed), (lit "error", errorJson r.error)]

/-- One observation for each case. -/
abbrev Observations (cases : List Case) :=
  {l : List Observation // l.length = cases.length}

/-- The comparison is between canonical texts, so `True` is not `1`. -/
def gradeCase (c : Case) (o : Observation) : Except PyErr CaseResult :=
  match o.error with
  | some e => .ok ⟨c.id, c.weight, false, some e⟩
  | none => do
      let observed ← canonical o.observed
      let expected ← canonical c.expected
      return ⟨c.id, c.weight, decide (observed = expected), none⟩

def gradeCases (cases : List Case) (observations : List Observation) :
    Except PyErr (List CaseResult) :=
  (cases.zip observations).mapM fun p => gradeCase p.1 p.2

def earnedWeight (results : List CaseResult) : ℕ :=
  ((results.filter fun r => r.passed).map fun r => r.weight).sum

def totalWeight (cases : List Case) : ℕ := (cases.map fun c => c.weight).sum

/-- `round(100*earned/total,2)`. -/
def scorePercent (earned total : ℕ) : Except PyErr PyFloat :=
  if total = 0 then .error .zeroDivision
  else .ok ((PyFloat.trueDiv (100 * earned) total).round 2)

def payloadFields (inv : Inventories) (ident : GradingIdentity) (cases : List Case)
    (results : List CaseResult) (score : PyFloat) : List (Str × Json) :=
  [(lit "session_id", .str ident.sessionId.1), (lit "job_id", .str ident.jobId.1),
    (lit "challenge_slug", .str ident.challengeSlug.1),
    (lit "source_digest", .str ident.sourceDigest.1),
    (lit "evaluator_version", .str inv.version.1),
    (lit "inventory_digest", .str (inv.digest ident.challengeSlug.1 cases)),
    (lit "cases", .arr (results.map CaseResult.toJson)),
    (lit "earned_weight", .int (earnedWeight results)),
    (lit "total_weight", .int (totalWeight cases)),
    (lit "score_percent", .float score), (lit "complete", .bool true),
    (lit "manual_requirements", textList (inv.manualRequirements
      ident.challengeSlug.1)),
    (lit "challenge_version", .str ident.challengeVersion.1),
    (lit "lease_token", optionalText ident.leaseToken)]

/-- `evaluate_snapshot`, with the observations of the probes in the order of the
inventory.  The ids are written from `UUID` values, so their form is not checked
again. -/
def evaluateSnapshot (inv : Inventories) (key : Str) (ident : GradingIdentity)
    (parentName name : Str) (source : Option Tree)
    (observe : (cases : List Case) → Except PyErr (Observations cases)) :
    Except PyErr Json := do
  let _ ← signingKey key
  if ident.challengeVersion.1 = [] ∨ (ident.leaseToken.elim [] Subtype.val) = [] ∨
      256 < (ident.leaseToken.elim [] Subtype.val).length then
    .error (.value "Missing trusted grading execution identity")
  else
    let _ ← verifySnapshot parentName name source ident.sourceDigest.1
    match inv.casesFor ident.challengeSlug.1 with
    | none => .error (.value "Unsupported trusted evaluation challenge")
    | some cases => do
        let observations ← observe cases
        let results ← gradeCases cases observations.1
        let _ ← verifySnapshot parentName name source ident.sourceDigest.1
        let score ← scorePercent (earnedWeight results) (totalWeight cases)
        signResult key (.obj (payloadFields inv ident cases results score))

/-! ## Verification -/

def isKnownError : Json → Bool
  | .null => true
  | .str s => s = lit "invalid_output" || s = lit "timeout" || s = lit "candidate_error"
  | _ => false

/-- The check of one case; it yields the weight earned. -/
def verifyCase (c : Case) (result : Json) : Except PyErr ℕ :=
  match result with
  | .obj fields =>
      match fieldOf fields "weight", fieldOf fields "passed" with
      | .int weight, .bool passed =>
          if equalsText (fieldOf fields "id") (some c.id.1) = false ∨
              weight ≠ c.weight then
            .error (.value "Invalid trusted grading case")
          else if isKnownError (fieldOf fields "error") = false then
            .error (.value "Invalid trusted grading error")
          else if passed = true ∧ equalsText (fieldOf fields "error") none = false then
            .error (.value "Invalid trusted grading success")
          else .ok (if passed then c.weight else 0)
      | _, _ => .error (.value "Invalid trusted grading case")
  | _ => .error (.value "Invalid trusted grading case")

/-- `type(..) is int` and equality with an integer. -/
def isInt (v : Json) (n : ℕ) : Bool :=
  match v with
  | .int z => z = n
  | _ => false

/-- `type(..) in (int, float)`. -/
def isNumeric : Json → Bool
  | .int _ => true
  | .float _ => true
  | _ => false

/-- Equality of a number with a float. -/
def isNumber (v : Json) (x : PyFloat) : Bool :=
  match v with
  | .int z => x.eqInt z
  | .float y => y.eqFloat x
  | _ => false

/-- Equality with a list of strings. -/
def equalsTexts : List Json → List Text → Bool
  | [], [] => true
  | v :: items, t :: texts => equalsText v (some t.1) && equalsTexts items texts
  | _, _ => false

def isTextList (v : Json) (texts : List Text) : Bool :=
  match v with
  | .arr items => equalsTexts items texts
  | _ => false

/-- The checks after the signature and the bindings. -/
def verifyPayload (cases : List Case) (manual : List Text)
    (fields : List (Str × Json)) : Except PyErr Unit :=
  match fieldOf fields "cases" with
  | .arr results =>
      if results.length ≠ cases.length then
        .error (.value "Incomplete trusted grading inventory")
      else do
        let earned ← (cases.zip results).mapM fun p => verifyCase p.1 p.2
        if isInt (fieldOf fields "earned_weight") earned.sum = false ∨
            isInt (fieldOf fields "total_weight") (totalWeight cases) = false ∨
            isNumeric (fieldOf fields "score_percent") = false then
          .error (.value "Invalid trusted grading totals")
        else
          let score ← scorePercent earned.sum (totalWeight cases)
          if isNumber (fieldOf fields "score_percent") score = false then
            .error (.value "Invalid trusted grading totals")
          else if isTextList (fieldOf fields "manual_requirements") manual = false then
            .error (.value "Invalid trusted grading coverage")
          else
            match fieldOf fields "complete" with
            | .bool true => .ok ()
            | _ => .error (.value "Incomplete trusted grading execution")
  | _ => .error (.value "Incomplete trusted grading inventory")

/-- A dictionary with exactly the keys of an envelope. -/
def envelopeParts : Json → Option (Json × Json)
  | .obj fields =>
      if fields.all (fun f => f.1 = lit "payload" || f.1 = lit "signature") then
        match fields.lookup (lit "payload"), fields.lookup (lit "signature") with
        | some payload, some s => some (payload, s)
        | _, _ => none
      else none
  | _ => none

/-- `verify_result`; it yields the authenticated payload. -/
def verifyResult (inv : Inventories) (key : Str) (ident : GradingIdentity)
    (envelope : Json) : Except PyErr Json :=
  match envelopeParts envelope with
  | some (.obj fields, .str given) => do
      let expected ← signature key (.obj fields)
      if given.any (fun c => 128 ≤ c.val) then .error .type
      else if expected ≠ given then
        .error (.value "Invalid trusted grading signature")
      else
        match inv.casesFor ident.challengeSlug.1 with
        | none => .error (.value "Unsupported trusted evaluation challenge")
        | some cases =>
            if (bindings inv ident cases).any (fun b =>
                !equalsText (fieldOf fields b.1) b.2) then
              .error (.value "Trusted grading result identity or inventory mismatch")
            else do
              verifyPayload cases (inv.manualRequirements ident.challengeSlug.1) fields
              return .obj fields
  | _ => .error (.value "Malformed trusted grading result")

end PromptCode
