import PromptCode.Py.Convert
import PromptCode.Transition

/-!
# The relay of paid model calls

`SandboxLLMRelay` of `services/sandbox/relay.py`.  Each thread of the server runs one
`handle_request`; its locked blocks are atomic, and the provider answers as it likes.
-/

namespace PromptCode

open Py

/-! ## Model names -/

/-- `CHAT_MODELS`. -/
def chatModels : List Str :=
  [lit "gpt-4o", lit "gpt-4o-mini", lit "gpt-4-turbo", lit "gpt-3.5-turbo",
    lit "deepseek-flash"]

/-- `{m.lower(): m for m in allowed_models}`. -/
def canonicalByLower (allowedModels : List Str) : List (Str × Str) :=
  allowedModels.foldl (fun d m =>
    if (d.map Prod.fst).contains (lower m) then
      d.map fun e => if e.1 = lower m then (e.1, m) else e
    else d ++ [(lower m, m)]) []

/-- `resolve_allowed_model`. -/
def resolveAllowedModel (model : Str) (allowedModels : List Str) : Option Str :=
  let rawModel := strip model
  if rawModel = [] then none
  else
    let canonical := canonicalByLower allowedModels
    let lowered := lower rawModel
    match (canonical.lookup lowered).filter (· ≠ []) with
    | some direct => some direct
    | none => [lit "/", lit ":", lit "."].findSome? fun sep =>
        (canonical.find? fun e => (sep ++ e.1).isSuffixOf lowered).map Prod.snd

/-! ## Requests -/

structure SandboxLLMBudget where
  allowedModels : List Str
  maxCalls : ℕ
  maxPromptChars : ℤ
  maxCompletionTokens : ℤ
  maxTotalTokens : ℤ
  maxTotalCostUsd : PyFloat

structure SandboxLLMRelay where
  conv : TextConversions
  baseUrl : Str
  budget : SandboxLLMBudget
  defaultModel : Str

/-- How a call ends when it does not return. -/
inductive CallError where
  | relay (statusCode : ℤ) (detail : Str)
  | raised (e : ValueErr)
  /-- `httpx.HTTPError`. -/
  | transport
  deriving DecidableEq

/-- What `handle_request` has read from a payload. -/
structure RelayCall where
  requestedModel : Str
  model : Str
  prompt : Str
  system : Str
  maxTokens : ℤ
  temperature : PyFloat

def badRequest (detail : Str) : CallError := .relay 400 detail

def tooManyRequests (detail : Str) : CallError := .relay 429 detail

def badGateway (detail : Str) : CallError := .relay 502 detail

def commaJoin (names : List Str) : Str := (lit ", ").intercalate names

/-- `_validate_model`. -/
def validateModel (model : Str) (allowedModels : List Str) : Except CallError Str :=
  match (resolveAllowedModel model allowedModels).filter (· ≠ []) with
  | some canonical => .ok canonical
  | none =>
      let supported := commaJoin (if allowedModels = [] then chatModels else allowedModels)
      .error (badRequest (lit "Model '" ++ model ++
        lit "' is not allowed in the sandbox. Choose one of: " ++ supported ++ lit "."))

namespace SandboxLLMRelay

variable (relay : SandboxLLMRelay)

def isDeepseek : Bool := relay.baseUrl = lit "https://api.deepseek.com"

/-- The model that `handle_request` goes on with. -/
def requestedModel (payload : List (Str × Json)) : Except CallError Str :=
  let requested := (Json.getField payload (lit "model")).orText relay.conv []
  if relay.isDeepseek then
    match validateModel requested chatModels with
    | .error e => .error e
    | .ok _ => .ok (lit "deepseek-flash")
  else .ok requested

/-- `handle_request` before it takes the lock. -/
def readPayload (payload : List (Str × Json)) : Except CallError RelayCall :=
  match relay.requestedModel payload with
  | .error e => .error e
  | .ok requested =>
    match validateModel requested relay.budget.allowedModels with
    | .error e => .error e
    | .ok model =>
      let prompt := (Json.getField payload (lit "prompt")).orText relay.conv []
      let system := (Json.getField payload (lit "system")).orText relay.conv []
      if strip prompt = [] then .error (badRequest (lit "Prompt cannot be empty."))
      else if (prompt.length + system.length : ℤ) > relay.budget.maxPromptChars then
        .error (badRequest (lit "Prompt too large for sandbox relay (>" ++
          intText relay.budget.maxPromptChars ++ lit " chars)."))
      else
        match (Json.getField payload (lit "max_tokens")).orInt relay.conv 0 with
        | .error e => .error (.raised e)
        | .ok requestedMaxTokens =>
          if requestedMaxTokens ≤ 0 then
            .error (badRequest (lit "max_tokens must be a positive integer."))
          else
            match (Json.getField payload (lit "temperature")).orFloat relay.conv with
            | .error e => .error (.raised e)
            | .ok t => .ok
              { requestedModel := requested
                model := model
                prompt := prompt
                system := system
                maxTokens := min requestedMaxTokens relay.budget.maxCompletionTokens
                temperature := PyFloat.max .zero (PyFloat.min t .two) }

end SandboxLLMRelay

/-! ## The provider -/

/-- One attempt of `_send_upstream_request`. -/
inductive Upstream where
  /-- No API key, or no budget. -/
  | refused (statusCode : ℤ) (detail : Str)
  | failed
  /-- An HTTP response; its body may not be JSON. -/
  | response (statusCode : ℤ) (body : Option Json) (latencyMs : PyFloat)

/-- `_send_upstream_request`. -/
def sendUpstreamRequest : Upstream → Except CallError (Json × PyFloat)
  | .refused statusCode detail => .error (.relay statusCode detail)
  | .failed => .error .transport
  | .response statusCode body latencyMs =>
      if statusCode = 401 then .error (.relay 401 (lit "Invalid upstream AI API key."))
      else if statusCode ≠ 200 then
        .error (.relay statusCode (lit "AI provider rejected the request."))
      else
        match body with
        | none => .error (.raised .value)
        | some data => .ok (data, latencyMs)

def addCandidate (candidates : List Str) (modelId : Str) : List Str :=
  let candidate := strip modelId
  if candidate ≠ [] ∧ candidate ∉ candidates then candidates ++ [candidate] else candidates

/-- `_build_model_candidates`. -/
def buildModelCandidates (rawModel canonicalModel defaultModel : Str)
    (allowedModels : List Str) : List Str :=
  let preferred := addCandidate [] rawModel
  let preferred := if defaultModel ≠ [] ∧
      resolveAllowedModel defaultModel allowedModels = some canonicalModel then
    addCandidate preferred defaultModel else preferred
  [canonicalModel, lit "protected." ++ canonicalModel, lit "openai/" ++ canonicalModel,
    lit "openai:" ++ canonicalModel].foldl addCandidate preferred

def SandboxLLMRelay.candidates (relay : SandboxLLMRelay) (call : RelayCall) : List Str :=
  if relay.isDeepseek then [lit "deepseek-flash"]
  else buildModelCandidates call.requestedModel call.model relay.defaultModel
    relay.budget.allowedModels

/-- `_is_model_not_found_error`. -/
def isModelNotFoundError (statusCode : ℤ) (detail : Str) : Bool :=
  if statusCode ≠ 400 ∧ statusCode ≠ 404 then false
  else
    let text := lower detail
    contains (lit "model not found") text || contains (lit "model_not_found") text ||
      contains (lit "unknown model") text

/-- The request of one candidate. -/
structure UpstreamRequest where
  model : Str
  messages : List (Str × Str)
  temperature : PyFloat
  maxTokens : ℤ
  thinkingDisabled : Bool

/-- `_build_messages`. -/
def buildMessages (system prompt : Str) : List (Str × Str) :=
  (if strip system ≠ [] then [(lit "system", system)] else []) ++ [(lit "user", prompt)]

def SandboxLLMRelay.upstreamRequest (relay : SandboxLLMRelay) (call : RelayCall)
    (candidate : Str) : UpstreamRequest where
  model := candidate
  messages := buildMessages call.system call.prompt
  temperature := call.temperature
  maxTokens := call.maxTokens
  thinkingDisabled := relay.isDeepseek

/-! ## Usage -/

structure UpstreamUsage where
  content : Str
  model : Str
  promptTokens : ℤ
  completionTokens : ℤ
  totalTokens : ℤ
  deriving DecidableEq

/-- The three token counts of a response. -/
def readTokens (conv : TextConversions) (usage : List (Str × Json)) :
    Except ValueErr (ℤ × ℤ × ℤ) :=
  match (Json.getField usage (lit "prompt_tokens")).orInt conv 0 with
  | .error e => .error e
  | .ok promptTokens =>
    match (Json.getField usage (lit "completion_tokens")).orInt conv 0 with
    | .error e => .error e
    | .ok completionTokens =>
      match (Json.getField usage (lit "total_tokens")).orInt conv
          (promptTokens + completionTokens) with
      | .error e => .error e
      | .ok totalTokens => .ok (promptTokens, completionTokens, totalTokens)

/-- The text of a choice. -/
def readContent (conv : TextConversions) (choice : Json) : Except ValueErr Str :=
  match choice.orDict with
  | .error e => .error e
  | .ok choice =>
    match (Json.getField choice (lit "message")).orDict with
    | .error e => .error e
    | .ok message => .ok ((Json.getField message (lit "content")).orText conv [])

/-- `_parse_upstream_payload`. -/
def parseUpstreamPayload (conv : TextConversions) (data : Json) (fallbackModel : Str) :
    Except CallError UpstreamUsage :=
  match data with
  | .obj fields =>
    match Json.getField fields (lit "choices") with
    | .arr (choice :: _) =>
      match readContent conv choice with
      | .error e => .error (.raised e)
      | .ok content =>
        match (Json.getField fields (lit "usage")).orDict with
        | .error e => .error (.raised e)
        | .ok usage =>
          match readTokens conv usage with
          | .error e => .error (.raised e)
          | .ok (promptTokens, completionTokens, totalTokens) => .ok
            { content := content
              model := (Json.getField fields (lit "model")).orText conv fallbackModel
              promptTokens := promptTokens
              completionTokens := completionTokens
              totalTokens := totalTokens }
    | _ => .error (badGateway (lit "Upstream model response was missing choices."))
  | _ => .error (.raised .attribute)

/-- A price in dollars with two decimals, divided by a million. -/
def perMillion (cents : ℕ) : PyFloat :=
  match Double.ofDecimal false cents (-2) with
  | some x => .ofNearest false (Double.nearest false x.units 1000000)
  | none => .inf false

/-- `_MODEL_PRICING`. -/
def modelPricing : List (Str × PyFloat × PyFloat) :=
  [(lit "deepseek-flash", perMillion 30, perMillion 120),
    (lit "gpt-4o", perMillion 250, perMillion 1000),
    (lit "gpt-4o-mini", perMillion 15, perMillion 60),
    (lit "gpt-4-turbo", perMillion 1000, perMillion 3000),
    (lit "gpt-3.5-turbo", perMillion 50, perMillion 150)]

/-- `_DEFAULT_PRICING`. -/
def defaultPricing : PyFloat × PyFloat := (perMillion 500, perMillion 1500)

/-- `(p * rates[0]) + (c * rates[1])`, unless a count is beyond the floats. -/
def priceAt (rates : PyFloat × PyFloat) :
    Option PyFloat → Option PyFloat → Except CallError PyFloat
  | some p, some c => .ok ((p.mul rates.1).add (c.mul rates.2))
  | _, _ => .error (.raised .overflow)

/-- `_estimate_cost`. -/
def estimateCost (model : Str) (promptTokens completionTokens : ℤ) :
    Except CallError PyFloat :=
  priceAt ((modelPricing.lookup model).getD defaultPricing) (PyFloat.ofInt promptTokens)
    (PyFloat.ofInt completionTokens)

/-! ## The relay -/

/-- An entry of `_records`.  The identifiers of `uuid4` are the numbers of the threads. -/
structure CallRecord where
  callId : ℕ
  model : Str
  prompt : Str
  system : Str
  response : Str
  temperature : PyFloat
  tokensPrompt : ℤ
  tokensCompletion : ℤ
  tokensTotal : ℤ
  latencyMs : PyFloat
  costUsd : PyFloat
  retryIndex : ℕ

structure RelayResponse where
  content : Str
  model : Str
  promptTokens : ℤ
  completionTokens : ℤ
  totalTokens : ℤ
  latencyMs : PyFloat
  costUsd : PyFloat
  callsUsed : ℕ
  callsRemaining : ℕ
  totalTokensUsed : ℤ
  totalCostUsd : PyFloat

/-- Where a thread is in `handle_request`. -/
inductive RelayPhase where
  | idle
  | refused (e : CallError)
  /-- The candidates that are left. -/
  | sending (call : RelayCall) (rest : List Str)
  | received (call : RelayCall) (attemptedModel : Str) (data : Json) (latencyMs : PyFloat)
  | recorded (record : CallRecord) (callsUsed callsRemaining : ℕ)
  | ended (result : Except CallError RelayResponse)

/-- A response that the provider has charged for. -/
structure BilledResponse where
  thread : ℕ
  request : UpstreamRequest
  body : Option Json
  latencyMs : PyFloat

structure RelayState where
  callsStarted : ℕ
  totalTokens : ℤ
  totalCostUsd : PyFloat
  records : List CallRecord
  threads : ℕ → RelayPhase
  /-- The account of the provider. -/
  bill : List BilledResponse

inductive RelayAction where
  | request (t : ℕ) (payload : List (Str × Json))
  | send (t : ℕ) (upstream : Upstream)
  | record (t : ℕ)
  | respond (t : ℕ)

def RelayState.start : RelayState := ⟨0, 0, .zero, [], fun _ => .idle, []⟩

namespace RelayState

variable (st : RelayState)

def setPhase (t : ℕ) (phase : RelayPhase) : RelayState :=
  { st with threads := Function.update st.threads t phase }

/-- The first locked block, up to its last line. -/
def checkBudget (budget : SandboxLLMBudget) : Except CallError Unit :=
  if budget.maxCalls ≤ st.callsStarted then
    .error (tooManyRequests (lit "Sandbox LLM call budget exhausted."))
  else if budget.maxTotalTokens ≤ st.totalTokens then
    .error (tooManyRequests (lit "Sandbox token budget exhausted."))
  else if st.totalCostUsd.ge budget.maxTotalCostUsd then
    .error (tooManyRequests (lit "Sandbox cost budget exhausted."))
  else .ok ()

/-- The provider charges for a response with status 200. -/
def charge (t : ℕ) (request : UpstreamRequest) : Upstream → RelayState
  | .response statusCode body latencyMs =>
      if statusCode = 200 then
        { st with bill := st.bill ++ [⟨t, request, body, latencyMs⟩] }
      else st
  | _ => st

/-- The second locked block. -/
def append (record : CallRecord) (cost : PyFloat) : RelayState :=
  { st with
    totalTokens := st.totalTokens + record.tokensTotal
    totalCostUsd := st.totalCostUsd.add cost
    records := st.records ++ [record] }

end RelayState

variable (relay : SandboxLLMRelay)

/-- What follows an attempt of `_send_upstream_request_with_fallback`. -/
def afterAttempt (call : RelayCall) (candidate : Str) (rest : List Str)
    (upstream : Upstream) : RelayPhase :=
  match sendUpstreamRequest upstream with
  -- a failed attempt counts 0.0 ms
  | .ok (data, latencyMs) => .received call candidate data (PyFloat.zero.add latencyMs)
  | .error (.relay statusCode detail) =>
      if statusCode = 401 then .ended (.error (badGateway detail))
      else if isModelNotFoundError statusCode detail then
        if rest ≠ [] then .sending call rest
        else .ended (.error (badGateway (lit "Model not found for tried ids: " ++
          commaJoin (relay.candidates call))))
      else .ended (.error (badGateway (lit "Upstream model request failed with " ++
        intText statusCode ++ lit ": " ++ detail)))
  | .error e => .ended (.error e)

/-- The record of a call of a known cost. -/
def recordAt (t : ℕ) (call : RelayCall) (latencyMs : PyFloat) (usage : UpstreamUsage)
    (cost : PyFloat) : CallRecord where
  callId := t
  model := usage.model
  prompt := call.prompt
  system := call.system
  response := usage.content
  temperature := call.temperature
  tokensPrompt := usage.promptTokens
  tokensCompletion := usage.completionTokens
  tokensTotal := usage.totalTokens
  latencyMs := latencyMs.round 1
  costUsd := cost.round 6
  retryIndex := 0

/-- The record of a call and what it adds to the cost. -/
def recordUsage (t : ℕ) (call : RelayCall) (latencyMs : PyFloat) (usage : UpstreamUsage) :
    Except CallError (CallRecord × PyFloat) :=
  (estimateCost usage.model usage.promptTokens usage.completionTokens).map fun cost =>
    (recordAt t call latencyMs usage cost, cost)

/-- The record of a response. -/
def recordOf (t : ℕ) (call : RelayCall) (attemptedModel : Str) (data : Json)
    (latencyMs : PyFloat) : Except CallError (CallRecord × PyFloat) :=
  match parseUpstreamPayload relay.conv data attemptedModel with
  | .error e => .error e
  | .ok usage => recordUsage t call latencyMs usage

/-- The answer, with the totals as they are when it is built. -/
def responseOf (st : RelayState) (record : CallRecord) (callsUsed callsRemaining : ℕ) :
    RelayResponse where
  content := record.response
  model := record.model
  promptTokens := record.tokensPrompt
  completionTokens := record.tokensCompletion
  totalTokens := record.tokensTotal
  latencyMs := record.latencyMs
  costUsd := record.costUsd
  callsUsed := callsUsed
  callsRemaining := callsRemaining
  totalTokensUsed := st.totalTokens
  totalCostUsd := st.totalCostUsd.round 6

/-- One step of a thread of `handle_request`. -/
def relayAct (st : RelayState) : RelayAction → RelayState
  | .request t payload =>
      match st.threads t with
      | .idle =>
          match relay.readPayload payload with
          | .error e => st.setPhase t (.refused e)
          | .ok call =>
              match st.checkBudget relay.budget with
              | .error e => st.setPhase t (.refused e)
              | .ok () => { st with callsStarted := st.callsStarted + 1 }.setPhase t
                  (.sending call (relay.candidates call))
      | _ => st
  | .send t upstream =>
      match st.threads t with
      | .sending call (candidate :: rest) =>
          (st.charge t (relay.upstreamRequest call candidate) upstream).setPhase t
            (afterAttempt relay call candidate rest upstream)
      | .sending call [] =>
          st.setPhase t (.ended (.error (badGateway
            (lit "Model selection failed for all tried ids: " ++
              commaJoin (relay.candidates call)))))
      | _ => st
  | .record t =>
      match st.threads t with
      | .received call attemptedModel data latencyMs =>
          match recordOf relay t call attemptedModel data latencyMs with
          | .error e => st.setPhase t (.ended (.error e))
          | .ok (record, cost) => (st.append record cost).setPhase t
              (.recorded record st.callsStarted (relay.budget.maxCalls - st.callsStarted))
      | _ => st
  | .respond t =>
      match st.threads t with
      | .recorded record callsUsed callsRemaining =>
          st.setPhase t (.ended (.ok (responseOf st record callsUsed callsRemaining)))
      | _ => st

end PromptCode
